import VoiceScript.Proofs.Lines
import VoiceScript.Proofs.Scans

namespace VoiceScript.Line

open Text

variable {source : List Char} {line : Line} {lines : List Line} {n offset : Nat}

/-- A line that has an end ends with its one newline. -/
theorem exists_text_eq (hn : '\n' ∉ line.content) (ht : line.terminator ≠ .none) :
    ∃ front, line.text = front ++ ['\n'] ∧ '\n' ∉ front := by
  obtain ⟨cr, hcr, hncr⟩ := Terminator.exists_text_of_ne_none ht
  exact ⟨line.content ++ cr, by simp [text, hcr], by simp [hn, hncr]⟩

theorem count_text (hn : '\n' ∉ line.content) (ht : line.terminator ≠ .none) :
    line.text.count '\n' = 1 := by
  obtain ⟨front, htext, hfront⟩ := exists_text_eq hn ht
  simp [htext, List.count_eq_zero_of_not_mem hfront]

theorem newline_not_mem_takeBytes (hn : '\n' ∉ line.content) (ht : line.terminator ≠ .none)
    (h : offset < byteLength line.text) : '\n' ∉ takeBytes offset line.text := by
  obtain ⟨front, htext, hfront⟩ := exists_text_eq hn ht
  have hle : offset ≤ byteLength front := by
    have hsize : '\n'.utf8Size = 1 := rfl
    simp only [htext, byteLength_append, byteLength_cons, byteLength_nil, hsize] at h
    omega
  rw [htext, takeBytes_append_of_le hle]
  exact fun hmem => hfront ((takeBytes_isPrefix offset front).subset hmem)

theorem Joinable.length_eq (h : Joinable lines) : lines.length = (join lines).count '\n' + 1 := by
  induction h with
  | last hn => simp [text, Terminator.text, List.count_eq_zero_of_not_mem hn]
  | cons hn ht rest ih =>
    simp only [List.length_cons, join_cons, List.count_append, count_text hn ht, ih]
    omega

/-- The search goes on to the line below just where the newline of the line stands before the offset. -/
theorem Joinable.ofOffset_eq_count (h : Joinable lines) (offset : Nat) :
    ofOffset lines offset = (takeBytes offset (join lines)).count '\n' := by
  induction h generalizing offset with
  | @last content hn =>
    have hmem : '\n' ∉ takeBytes offset content :=
      fun hmem => hn ((takeBytes_isPrefix offset content).subset hmem)
    simp [ofOffset, text, Terminator.text, List.count_eq_zero_of_not_mem hmem]
  | @cons line lines hn ht rest ih =>
    rw [ofOffset_cons rest.ne_nil, join_cons]
    split
    · rename_i hsize
      obtain ⟨beyond, rfl⟩ := Nat.exists_eq_add_of_le hsize
      rw [Nat.add_sub_cancel_left, ih, takeBytes_add, List.count_append, count_text hn ht,
        Nat.add_comm]
    · rename_i hsize
      have hlt := Nat.lt_of_not_le hsize
      rw [takeBytes_append_of_le (Nat.le_of_lt hlt),
        List.count_eq_zero_of_not_mem (newline_not_mem_takeBytes hn ht hlt)]

/-- How many lines end at or before an offset. -/
def endsUpTo (lines : List Line) (offset : Nat) : Nat :=
  (List.range lines.length).countP fun n => startOffset lines (n + 1) ≤ offset

theorem endsUpTo_cons (line : Line) (lines : List Line) (offset : Nat) :
    endsUpTo (line :: lines) offset =
      if byteLength line.text ≤ offset then endsUpTo lines (offset - byteLength line.text) + 1
      else 0 := by
  split
  · rename_i hsize
    have hbelow : ∀ n, byteLength line.text + startOffset lines n ≤ offset ↔
        startOffset lines n ≤ offset - byteLength line.text := by
      intro n
      omega
    rw [endsUpTo, List.length_cons, List.range_succ_eq_map, List.countP_cons, List.countP_map]
    simp [endsUpTo, Function.comp_def, hbelow, hsize]
  · rename_i hsize
    -- No line ends before the first one does.
    apply List.countP_eq_zero.mpr
    intro n _
    simp only [startOffset_succ, decide_eq_true_eq]
    omega

/-- The line of an offset comes after the lines that end at or before the offset, the last line left out. -/
theorem ofOffset_eq_min (lines : List Line) (offset : Nat) :
    ofOffset lines offset = min (endsUpTo lines offset) (lines.length - 1) := by
  induction lines generalizing offset with
  | nil => rfl
  | cons line lines ih =>
    by_cases hnil : lines = []
    · simp [hnil, ofOffset]
    · have hlength := List.length_pos_iff.mpr hnil
      rw [ofOffset_cons hnil, endsUpTo_cons, List.length_cons, ih]
      split <;> omega

/-- After a newline at the end of a text comes an empty line, which ends where the line above it does. -/
example : endsUpTo (ofText "a\n".toList) 2 = 2 ∧ ofOffset (ofText "a\n".toList) 2 = 1 := by
  decide

/-- The lines that the newlines of a text cut it into. -/
structure Cut (source : List Char) (lines : List Line) : Prop where
  /-- Contents and ends make up the text. -/
  text : (lines.flatMap fun line => line.content ++ line.terminator.text) = source
  /-- There is one line more than there are newlines. -/
  length : lines.length = source.count '\n' + 1
  content : ∀ line ∈ lines, '\n' ∉ line.content
  /-- The last line ends with the text, and it alone. -/
  terminator : ∀ n line, lines[n]? = some line →
    (line.terminator = .none ↔ n + 1 = lines.length)
  /-- A carriage return before a newline is part of the end of the line. -/
  lf : ∀ line ∈ lines, line.terminator = .lf → line.content.getLast? ≠ some '\r'

theorem Cut.joinable (h : Cut source lines) : Joinable lines := by
  apply joinable_of_getElem?
  · rintro rfl
    simpa using h.length
  · intro n line hline
    exact ⟨h.content line (List.mem_of_getElem? hline), h.terminator n line hline⟩

theorem cut_ofText (source : List Char) : Cut source (ofText source) := by
  have hjoinable := joinable_ofText source
  constructor
  case text => exact join_ofText source
  case length => rw [hjoinable.length_eq, join_ofText]
  case content =>
    intro line hline
    obtain ⟨n, hn⟩ := List.getElem?_of_mem hline
    exact (hjoinable.getElem? hn).1
  case terminator =>
    intro n line hline
    exact (hjoinable.getElem? hline).2
  case lf =>
    intro line hline
    exact settle_eq_self_iff.mp (settle_of_mem_ofText hline)

theorem cut_iff : Cut source lines ↔ lines = ofText source := by
  constructor
  · intro h
    have hsettle : ∀ line ∈ lines, line.settle = line := by
      intro line hline
      exact settle_eq_self_iff.mpr (h.lf line hline)
    calc
      lines = lines.map settle := ((List.map_congr_left hsettle).trans (List.map_id lines)).symm
      _ = ofText (join lines) := (ofText_join h.joinable).symm
      _ = ofText source := congrArg ofText h.text
  · rintro rfl
    exact cut_ofText source

theorem slice_content (h : lines[n]? = some line) :
    slice (startOffset lines n) (startOffset lines n + byteLength line.content) (join lines) =
      line.content := by
  rw [join_of_getElem? h, text, List.append_assoc, ← List.append_assoc]
  exact slice_append _ _ _

/-- The end of a line stands between its content and the line below. -/
theorem slice_terminator (h : lines[n]? = some line) :
    slice (startOffset lines n + byteLength line.content) (startOffset lines (n + 1)) (join lines) =
      line.terminator.text := by
  rw [join_of_getElem? h, text, startOffset, startOffset, join_take_succ h, text]
  simp only [byteLength_append, ← List.append_assoc]
  rw [← byteLength_append]
  exact slice_append _ _ _

/-- Newlines cut a text into lines in one way, and the offsets where lines start and contents end cut it in the
same places. An offset is in the line with as many lines above it as there are newlines before the offset: as
many as end at or before it, but for the last line, which offsets past the end of the text are in. -/
theorem partition_by_newlines (source : List Char) :
    (∀ lines, Cut source lines ↔ lines = ofText source) ∧
      (∀ n line, (ofText source)[n]? = some line → ∃ stop,
        contentEnd? (ofText source) n = some stop ∧
          slice (startOffset (ofText source) n) stop source = line.content ∧
          slice stop (startOffset (ofText source) (n + 1)) source = line.terminator.text) ∧
      (∀ offset, ofOffset (ofText source) offset = (takeBytes offset source).count '\n') ∧
      (∀ offset, ofOffset (ofText source) offset =
        min (endsUpTo (ofText source) offset) ((ofText source).length - 1)) ∧
      ∀ offset, byteLength source ≤ offset →
        ofOffset (ofText source) offset + 1 = (ofText source).length := by
  have hjoin := join_ofText source
  have hcount : ∀ offset, ofOffset (ofText source) offset =
      (takeBytes offset source).count '\n' := by
    intro offset
    rw [(joinable_ofText source).ofOffset_eq_count, hjoin]
  refine ⟨fun lines => cut_iff, ?_, hcount, ofOffset_eq_min (ofText source), ?_⟩
  · intro n line hline
    have hcontent := slice_content hline
    have hterminator := slice_terminator hline
    rw [hjoin] at hcontent hterminator
    exact ⟨_, by simp [contentEnd?, hline], hcontent, hterminator⟩
  · intro offset hoffset
    rw [hcount, takeBytes_of_le hoffset, (cut_ofText source).length]

/-- A carriage return is part of the end of a line only right before the newline, and not of the line above. -/
example : ofText "\n\r\r\n\r".toList = [⟨[], .lf⟩, ⟨['\r'], .crlf⟩, ⟨['\r'], .none⟩] := by
  decide

end VoiceScript.Line
