import VoiceScript.Line

namespace VoiceScript.Line

/-- Lines without a newline in a content, of which the last one and no other ends with the text. -/
inductive Joinable : List Line → Prop
  | last {content : List Char} (hn : '\n' ∉ content) : Joinable [⟨content, .none⟩]
  | cons {line : Line} {lines : List Line} (hn : '\n' ∉ line.content)
      (ht : line.terminator ≠ .none) (rest : Joinable lines) : Joinable (line :: lines)

/-- The line as a text shows it: a carriage return before a line feed is part of the line's end. -/
def settle (line : Line) : Line :=
  if line.terminator = .lf ∧ line.content.getLast? = some '\r' then
    ⟨line.content.dropLast, .crlf⟩
  else line

variable {line line' : Line} {lines lines' : List Line} {c : Char} {cs rest : List Char}

theorem text_settle (line : Line) : line.settle.text = line.text := by
  unfold settle
  split
  · rename_i h
    obtain ⟨front, hfront⟩ := List.getLast?_eq_some_iff.mp h.2
    rw [text, text, h.1, hfront, List.dropLast_concat, List.append_assoc]
    rfl
  · rfl

theorem settle_eq_self_iff :
    line.settle = line ↔ (line.terminator = .lf → line.content.getLast? ≠ some '\r') := by
  unfold settle
  split
  · rename_i h
    constructor
    · intro heq
      have hterminator := congrArg terminator heq
      rw [h.1] at hterminator
      cases hterminator
    · intro hcr
      exact absurd h.2 (hcr h.1)
  · rename_i h
    simpa using h

theorem settle_of_getLast? (h : line.content.getLast? ≠ some '\r') : line.settle = line := by
  rw [settle, if_neg fun hl => h hl.2]

theorem settle_of_terminator (h : line.terminator ≠ .lf) : line.settle = line := by
  rw [settle, if_neg fun hl => h hl.1]

/-- Only a line with a line feed alone changes, and then it has none. -/
theorem settle_of_terminator_settle (h : line.settle.terminator = .lf) : line.settle = line := by
  unfold settle at h ⊢
  split
  · rename_i hl
    rw [if_pos hl] at h
    cases h
  · rfl

theorem ofText_cons (hn : c ≠ '\n') (hr : c = '\r' → cs.head? ≠ some '\n') :
    ofText (c :: cs) = push c (ofText cs) := by
  rw [ofText]
  · exact hn
  · rintro ds rfl rfl
    exact hr rfl rfl

/-- The part of a text up to its first newline is a line. -/
theorem ofText_newline (h : '\n' ∉ cs) (rest : List Char) :
    ofText (cs ++ '\n' :: rest) = settle ⟨cs, .lf⟩ :: ofText rest := by
  induction cs with
  | nil => rfl
  | cons c cs ih =>
    obtain ⟨hc, hcs⟩ := List.ne_and_not_mem_of_not_mem_cons h
    by_cases hr : c = '\r' ∧ cs = []
    · obtain ⟨rfl, rfl⟩ := hr
      rfl
    · have hhead : c = '\r' → (cs ++ '\n' :: rest).head? ≠ some '\n' := by
        intro hcr
        cases cs with
        | nil => exact absurd ⟨hcr, rfl⟩ hr
        | cons d cs =>
          intro hd
          cases hd
          simp at hcs
      rw [List.cons_append, ofText_cons (Ne.symm hc) hhead, ih hcs, push]
      congr 1
      cases cs with
      | nil =>
        have hcr : c ≠ '\r' := fun hcr => hr ⟨hcr, rfl⟩
        rw [settle_of_getLast? (by simp), settle_of_getLast? (by simpa using hcr)]
      | cons d cs =>
        simp only [settle, List.getLast?_cons_cons]
        split <;> rfl

theorem ofText_of_not_mem (h : '\n' ∉ cs) : ofText cs = [⟨cs, .none⟩] := by
  induction cs with
  | nil => rfl
  | cons c cs ih =>
    obtain ⟨hc, hcs⟩ := List.ne_and_not_mem_of_not_mem_cons h
    have hhead : c = '\r' → cs.head? ≠ some '\n' := by
      intro _ hd
      exact hcs (List.mem_of_head? hd)
    rw [ofText_cons (Ne.symm hc) hhead, ih hcs, push]

theorem ofText_line (hn : '\n' ∉ line.content) (ht : line.terminator ≠ .none) (rest : List Char) :
    ofText (line.text ++ rest) = line.settle :: ofText rest := by
  obtain ⟨content, terminator⟩ := line
  cases terminator with
  | none => exact absurd rfl ht
  | lf =>
    rw [text, Terminator.text, List.append_assoc]
    exact ofText_newline hn rest
  | crlf =>
    have hcr : '\n' ∉ content ++ ['\r'] := by simpa using hn
    have hline := ofText_newline hcr rest
    rw [settle, if_pos ⟨rfl, by simp⟩, List.dropLast_concat] at hline
    rw [settle_of_terminator (by simp), ← hline, text, Terminator.text]
    simp

/-- Lines put together come back when the text is split. -/
theorem ofText_join (h : Joinable lines) : ofText (join lines) = lines.map settle := by
  induction h with
  | last hn =>
    rw [join_cons, join_nil, text, Terminator.text, List.append_nil, List.append_nil,
      ofText_of_not_mem hn, List.map_singleton, settle_of_terminator (by simp)]
  | cons hn ht rest ih => rw [join_cons, ofText_line hn ht, ih, List.map_cons]

theorem Joinable.ne_nil (h : Joinable lines) : lines ≠ [] := by
  cases h <;> exact List.cons_ne_nil _ _

theorem Joinable.push (h : Joinable lines) (hc : c ≠ '\n') : Joinable (push c lines) := by
  cases h with
  | last hn => exact .last (by simpa [Ne.symm hc] using hn)
  | cons hn ht rest => exact .cons (by simpa [Ne.symm hc] using hn) ht rest

/-- Of the lines of a text, the last one ends with it and the others do not. -/
theorem Joinable.getElem? {n : Nat} (h : Joinable lines) (hline : lines[n]? = some line) :
    '\n' ∉ line.content ∧ (line.terminator = .none ↔ n + 1 = lines.length) := by
  induction h generalizing n with
  | last hn =>
    cases n with
    | zero =>
      cases hline
      exact ⟨hn, by simp⟩
    | succ n => cases hline
  | @cons first lines hn ht rest ih =>
    cases n with
    | zero =>
      cases hline
      exact ⟨hn, by simpa [ht] using rest.ne_nil⟩
    | succ n =>
      obtain ⟨hmem, hiff⟩ := ih hline
      exact ⟨hmem, by simpa using hiff⟩

theorem joinable_of_getElem? (hne : lines ≠ [])
    (h : ∀ n line, lines[n]? = some line →
      '\n' ∉ line.content ∧ (line.terminator = .none ↔ n + 1 = lines.length)) :
    Joinable lines := by
  induction lines with
  | nil => exact absurd rfl hne
  | cons line lines ih =>
    obtain ⟨hn, ht⟩ := h 0 line rfl
    cases lines with
    | nil =>
      obtain ⟨content, terminator⟩ := line
      cases ht.mpr rfl
      exact .last hn
    | cons next lines =>
      have hend : line.terminator ≠ .none := by
        intro hnone
        simpa using ht.mp hnone
      apply Joinable.cons hn hend
      apply ih (List.cons_ne_nil _ _)
      intro n below hbelow
      simpa using h (n + 1) below hbelow

theorem joinable_ofText (cs : List Char) : Joinable (ofText cs) := by
  fun_induction ofText cs with
  | case1 => exact .last (by simp)
  | case2 cs ih => exact .cons (by simp) (by simp) ih
  | case3 cs ih => exact .cons (by simp) (by simp) ih
  | case4 c cs hn _ ih => exact ih.push hn

/-- A text that is split has nothing left to settle. -/
theorem map_settle_ofText (cs : List Char) : (ofText cs).map settle = ofText cs := by
  rw [← ofText_join (joinable_ofText cs), join_ofText]

theorem settle_of_mem_ofText (h : line ∈ ofText cs) : line.settle = line := by
  have hmap := (map_settle_ofText cs).trans (List.map_id _).symm
  exact List.map_inj_left.mp hmap line h

theorem join_append (lines lines' : List Line) : join (lines ++ lines') = join lines ++ join lines' :=
  List.flatMap_append

theorem join_set {n : Nat} (h : n < lines.length) (line : Line) :
    join (lines.set n line) = join (lines.take n) ++ (line.text ++ join (lines.drop (n + 1))) := by
  rw [List.set_eq_take_append_cons_drop, if_pos h, join_append, join_cons]

theorem join_of_getElem? {n : Nat} (h : lines[n]? = some line) :
    join lines = join (lines.take n) ++ (line.text ++ join (lines.drop (n + 1))) := by
  obtain ⟨hlt, rfl⟩ := List.getElem?_eq_some_iff.mp h
  rw [← join_set hlt, List.set_getElem_self]

theorem join_take_succ {n : Nat} (h : lines[n]? = some line) :
    join (lines.take (n + 1)) = join (lines.take n) ++ line.text := by
  rw [List.take_add_one, h, join_append, Option.toList, join_cons, join_nil, List.append_nil]

theorem eq_of_settle_eq (h : line.settle = line'.settle)
    (ht : line.terminator = line'.terminator) : line = line' := by
  have htext := congrArg text h
  rw [text_settle, text_settle, text, text, ht] at htext
  obtain ⟨content, terminator⟩ := line
  cases ht
  cases List.append_cancel_right htext
  rfl

theorem eq_of_map_settle_eq (h : lines.map settle = lines'.map settle)
    (ht : lines.map terminator = lines'.map terminator) : lines = lines' := by
  induction lines generalizing lines' with
  | nil =>
    rw [List.map_nil, eq_comm, List.map_eq_nil_iff] at h
    exact h.symm
  | cons line lines ih =>
    cases lines' with
    | nil => cases h
    | cons line' lines' =>
      obtain ⟨hsettle, hrest⟩ := List.cons.inj h
      obtain ⟨hterminator, hterminators⟩ := List.cons.inj ht
      rw [eq_of_settle_eq hsettle hterminator, ih hrest hterminators]

/-- Lines with the same ends make up the same text only if they are the same. -/
theorem join_eq_iff (h : Joinable lines) (h' : Joinable lines')
    (ht : lines.map terminator = lines'.map terminator) :
    join lines = join lines' ↔ lines = lines' := by
  constructor
  · intro hjoin
    have hsettle := congrArg ofText hjoin
    rw [ofText_join h, ofText_join h'] at hsettle
    exact eq_of_map_settle_eq hsettle ht
  · rintro rfl
    rfl

end VoiceScript.Line
