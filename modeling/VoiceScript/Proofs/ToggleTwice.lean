import VoiceScript.Proofs.LineByLine

namespace VoiceScript

namespace Comment

open Outline

variable {line cs : List Char} {c : Char}

theorem trimStart_uncomment (h : Text.trimStart line = '#' :: ' ' :: c :: cs)
    (hc : Text.isBlank c = false) : Text.trimStart (uncomment line) = c :: cs := by
  rw [uncomment, h, strip, Text.trimStart_append_of_blank fun _ => Text.isBlank_of_mem_indent]
  exact List.dropWhile_cons_of_neg (by simp [hc])

/-- A sign with one space before the first character of a line is what commenting the line puts there. -/
theorem comment_uncomment (h : Text.trimStart line = '#' :: ' ' :: c :: cs)
    (hc : Text.isBlank c = false) : comment (uncomment line) = line := by
  have htrim := trimStart_uncomment h hc
  have hblank : isBlank (uncomment line) = false := by
    apply Bool.eq_false_iff.mpr
    intro hblank
    rw [isBlank_iff_trimStart.mp hblank] at htrim
    cases htrim
  have hindent : Text.indent (uncomment line) = Text.indent line := by
    have hline : uncomment line = Text.indent line ++ c :: cs := by rw [uncomment, h, strip]
    have hsplit := Text.indent_append_trimStart (uncomment line)
    rw [htrim, hline] at hsplit
    rw [hline]
    exact List.append_cancel_right hsplit
  rw [comment_of_not_isBlank hblank, hindent, htrim, ← h, Text.indent_append_trimStart]

/-- A line that commenting makes of another one has such a sign, unless it is blank. -/
theorem exists_of_comment_eq {other : List Char} (h : comment other = line)
    (hblank : isBlank other = false) :
    ∃ c cs, Text.trimStart other = c :: cs ∧ Text.isBlank c = false ∧
      Text.trimStart line = '#' :: ' ' :: c :: cs := by
  obtain ⟨c, cs, htrim⟩ := List.exists_cons_of_ne_nil (trimStart_ne_nil hblank)
  have hc := List.head?_dropWhile_not Text.isBlank other
  rw [← Text.trimStart, htrim] at hc
  refine ⟨c, cs, htrim, by simpa using hc, ?_⟩
  rw [← h, trimStart_comment hblank, htrim]

theorem comment_uncomment_iff (line : List Char) :
    comment (uncomment line) = line ↔ isBlank line = true ∨
      ∃ c cs, Text.trimStart line = '#' :: ' ' :: c :: cs ∧ Text.isBlank c = false := by
  constructor
  · intro h
    cases hblank : isBlank (uncomment line) with
    | true =>
      rw [comment_of_isBlank hblank] at h
      rw [h] at hblank
      exact .inl hblank
    | false =>
      obtain ⟨c, cs, _, hc, htrim⟩ := exists_of_comment_eq h hblank
      exact .inr ⟨c, cs, htrim, hc⟩
  · rintro (hblank | ⟨c, cs, htrim, hc⟩)
    · rw [uncomment_of_not_isCommented (isCommented_of_isBlank hblank), comment_of_isBlank hblank]
    · exact comment_uncomment htrim hc

theorem isCommented_iff : isCommented line = true ↔ (Text.trimStart line).head? = some '#' :=
  beq_iff_eq

theorem toggle_of_isCommented (h : isCommented line = true) : toggle line = uncomment line := by
  rw [toggle, if_pos h]

theorem toggle_of_not_isCommented (h : isCommented line = false) : toggle line = comment line := by
  rw [toggle, if_neg (by simp [h])]

theorem toggle_toggle_of_not_isCommented (h : isCommented line = false) :
    toggle (toggle line) = line := by
  rw [toggle_of_not_isCommented h]
  cases hblank : isBlank line with
  | true => rw [comment_of_isBlank hblank, toggle_of_not_isCommented h, comment_of_isBlank hblank]
  | false => rw [toggle_of_isCommented (isCommented_comment hblank), uncomment_comment]

/-- Where another sign comes up, it comes off too. -/
theorem toggle_toggle_of_isCommented (h : isCommented line = true) :
    toggle (toggle line) = line ↔
      isCommented (uncomment line) = false ∧ comment (uncomment line) = line := by
  rw [toggle_of_isCommented h]
  cases hnext : isCommented (uncomment line) with
  | true =>
    have hlength := length_uncomment_lt h
    have hlength' := length_uncomment_lt hnext
    rw [toggle_of_isCommented hnext]
    simp only [Bool.true_eq_false, false_and, iff_false]
    intro heq
    rw [heq] at hlength'
    omega
  | false => simp [toggle_of_not_isCommented hnext]

theorem toggle_toggle_iff (line : List Char) :
    toggle (toggle line) = line ↔ isBlank line = true ∨ (Text.trimStart line).head? ≠ some '#' ∨
      ∃ c cs, Text.trimStart line = '#' :: ' ' :: c :: cs ∧ Text.isBlank c = false ∧ c ≠ '#' := by
  cases hsign : isCommented line with
  | false =>
    have hhead : (Text.trimStart line).head? ≠ some '#' := by simpa [isCommented] using hsign
    exact iff_of_true (toggle_toggle_of_not_isCommented hsign) (.inr (.inl hhead))
  | true =>
    have hhead := isCommented_iff.mp hsign
    have hblank : isBlank line = false := by
      apply Bool.eq_false_iff.mpr
      intro hblank
      rw [isCommented_of_isBlank hblank] at hsign
      cases hsign
    rw [toggle_toggle_of_isCommented hsign, comment_uncomment_iff, hblank, hhead]
    simp only [Bool.false_eq_true, false_or, ne_eq, not_true_eq_false]
    constructor
    · rintro ⟨hnext, c, cs, htrim, hc⟩
      refine ⟨c, cs, htrim, hc, ?_⟩
      rintro rfl
      rw [isCommented, trimStart_uncomment htrim hc] at hnext
      cases hnext
    · rintro ⟨c, cs, htrim, hc, hne⟩
      refine ⟨?_, c, cs, htrim, hc⟩
      rw [isCommented, trimStart_uncomment htrim hc]
      simpa using hne

/-- Of the ways to edit a line twice, to comment and then to uncomment it always gives it back. To uncomment and
then to comment it does so for blank lines and for those with a sign, one space and then a first character that
is no blank; and to toggle it twice for blank lines, for lines without a sign, and for those with a sign, one
space and then a first character that is neither a blank nor another sign. -/
theorem edited_twice (line : List Char) :
    uncomment (comment line) = line ∧
    (comment (uncomment line) = line ↔ isBlank line = true ∨
      ∃ c cs, Text.trimStart line = '#' :: ' ' :: c :: cs ∧ Text.isBlank c = false) ∧
    (toggle (toggle line) = line ↔ isBlank line = true ∨ (Text.trimStart line).head? ≠ some '#' ∨
      ∃ c cs, Text.trimStart line = '#' :: ' ' :: c :: cs ∧ Text.isBlank c = false ∧ c ≠ '#') :=
  ⟨uncomment_comment line, comment_uncomment_iff line, toggle_toggle_iff line⟩

/-- The second sign of a line comes off with the second toggle. -/
example : toggle (toggle " # #a".toList) = " a".toList := by
  decide +kernel

/-- A line that comes back has the same last character in between. -/
theorem getLast?_toggle (h : toggle (toggle line) = line) :
    (toggle line).getLast? = line.getLast? := by
  cases hsign : isCommented line with
  | false => rw [toggle_of_not_isCommented hsign, getLast?_comment]
  | true =>
    have hback := ((toggle_toggle_of_isCommented hsign).mp h).2
    rw [toggle_of_isCommented hsign, ← getLast?_comment, hback]

end Comment

namespace Line

/-- A line with its comment sign put on or taken off. -/
def toggle (line : Line) : Line :=
  { line with content := Comment.toggle line.content }

variable {line : Line}

/-- A line that comes back hands nothing over to its end in between. -/
theorem settle_toggle (hs : line.settle = line) (h : line.toggle.toggle = line) :
    line.toggle.settle = line.toggle := by
  have hlast : line.toggle.content.getLast? = line.content.getLast? :=
    Comment.getLast?_toggle (congrArg content h)
  rw [settle_eq_self_iff] at hs ⊢
  rwa [hlast]

/-- What a line hands over to its end does not come back. -/
theorem toggle_toggle_of_settle (h : line.toggle.settle.toggle.settle = line) :
    line.toggle.toggle = line := by
  by_cases ht : line.terminator = .lf
  · have hlast : line.toggle.settle.toggle.settle.terminator = .lf := by rw [h, ht]
    rw [settle_of_terminator_settle hlast] at h hlast
    rwa [settle_of_terminator_settle hlast] at h
  · have hfirst : line.toggle.settle = line.toggle := settle_of_terminator ht
    have hsecond : line.toggle.toggle.settle = line.toggle.toggle := settle_of_terminator ht
    rwa [hfirst, hsecond] at h

end Line

namespace Comment

open Line

variable {source : List Char} {lines : List Line} {targets : Nat → Bool} {request : Request} {n : Nat}

theorem getElem?_apply_toggle (h : targets n = true) (lines : List Line) :
    (Plan.apply ⟨targets, .toggle⟩ lines)[n]? = lines[n]?.map Line.toggle :=
  Plan.getElem?_apply_of_targets h lines

theorem apply_toggle_twice
    (h : ∀ n line, targets n = true → lines[n]? = some line → line.toggle.toggle = line) :
    Plan.apply ⟨targets, .toggle⟩ (Plan.apply ⟨targets, .toggle⟩ lines) = lines := by
  apply List.ext_getElem?
  intro n
  cases hn : targets n with
  | true =>
    rw [getElem?_apply_toggle hn, getElem?_apply_toggle hn]
    cases hline : lines[n]? with
    | none => rfl
    | some line => rw [Option.map_some, Option.map_some, h n line hn hline]
  | false => rw [Plan.getElem?_apply_of_not_targets hn, Plan.getElem?_apply_of_not_targets hn]

/-- Where each toggled line comes back, the toggled text is split in the same way as the text. -/
theorem settle_of_mem_apply_toggle
    (h : ∀ n line, targets n = true → (ofText source)[n]? = some line → line.toggle.toggle = line)
    {edited : Line} (hedited : edited ∈ Plan.apply ⟨targets, .toggle⟩ (ofText source)) :
    edited.settle = edited := by
  obtain ⟨n, hget⟩ := List.getElem?_of_mem hedited
  cases hn : targets n with
  | true =>
    rw [getElem?_apply_toggle hn] at hget
    obtain ⟨line, hline, rfl⟩ := Option.map_eq_some_iff.mp hget
    exact settle_toggle (settle_of_mem_ofText (List.mem_of_getElem? hline)) (h n line hn hline)
  | false =>
    rw [Plan.getElem?_apply_of_not_targets hn] at hget
    exact settle_of_mem_ofText (List.mem_of_getElem? hget)

theorem toggled_toggled_iff (source : List Char) (targets : Nat → Bool) :
    toggled (toggled source targets) targets = source ↔
      ∀ n line, targets n = true → (ofText source)[n]? = some line → line.toggle.toggle = line := by
  constructor
  · intro h n line hn hline
    have hlines := congrArg (fun text => (ofText text)[n]?) h
    simp only [ofText_toggled, List.getElem?_map, getElem?_apply_toggle hn, hline, Option.map_some,
      Option.some.injEq] at hlines
    exact toggle_toggle_of_settle hlines
  · intro h
    have hsettle : (Plan.apply ⟨targets, .toggle⟩ (ofText source)).map settle =
        Plan.apply ⟨targets, .toggle⟩ (ofText source) :=
      (List.map_congr_left fun _ => settle_of_mem_apply_toggle h).trans (List.map_id _)
    rw [toggled, ofText_toggled, hsettle, apply_toggle_twice h, join_ofText]

/-- The requests that toggle each of their lines on its own. -/
inductive Request.Toggles : Request → Prop
  | line (n : Nat) : Toggles (.line n)
  | carets (ns : List Nat) : Toggles (.carets ns)
  | selection (a b : Nat) : Toggles (.selection a b)

theorem Request.Toggles.exists_plan (h : request.Toggles) :
    ∃ targets, ∀ lines, plan lines request = ⟨targets, .toggle⟩ := by
  cases h with
  | line n => exact ⟨_, fun _ => rfl⟩
  | carets ns => exact ⟨_, fun _ => rfl⟩
  | selection a b => exact ⟨_, fun _ => rfl⟩

/-- A request that toggles lines of the text can be made twice, and the text comes back just when each of those
lines does on its own. -/
theorem lines_toggled_twice (source : List Char) (request : Request) (hrequest : request.Toggles)
    (hn : ∀ n ∈ request.named, n < (ofText source).length) :
    ∃ result again, apply source request = .ok result ∧ apply result request = .ok again ∧
      (again = source ↔ ∀ n content, Targets (ofText source) request n →
        content? (ofText source) n = some content → toggle (toggle content) = content) := by
  obtain ⟨targets, hplan⟩ := hrequest.exists_plan
  have hfirst := apply_of_plan (hplan _) hn
  have hlength := length_ofText_apply hfirst
  refine ⟨_, _, hfirst, apply_of_plan (hplan _) (by rwa [hlength]), ?_⟩
  rw [toggled_toggled_iff]
  have htargets : ∀ n, Targets (ofText source) request n ↔ targets n = true := by
    intro n
    rw [targets_iff, hplan]
  constructor
  · intro h n content ht hcontent
    obtain ⟨line, hline, rfl⟩ := Option.map_eq_some_iff.mp hcontent
    exact congrArg Line.content (h n line ((htargets n).mp ht) hline)
  · intro h n line ht hline
    have hback := h n line.content ((htargets n).mpr ht) (Option.map_eq_some_iff.mpr ⟨line, hline, rfl⟩)
    rw [Line.toggle, Line.toggle, hback]

/-- A caret that is named twice counts once, and a return that ends a line stays with it. -/
theorem carets_toggled_twice :
    (∀ n ∈ (Request.carets [1, 0, 1]).named, n < (ofText "a\r\n# b\n\t#c".toList).length) ∧
    apply "a\r\n# b\n\t#c".toList (.carets [1, 0, 1]) = .ok "# a\r\nb\n\t#c".toList ∧
    apply "# a\r\nb\n\t#c".toList (.carets [1, 0, 1]) = .ok "a\r\n# b\n\t#c".toList := by
  have hn : ∀ n ∈ (Request.carets [1, 0, 1]).named, n < (ofText "a\r\n# b\n\t#c".toList).length := by
    decide +kernel
  have hfirst : apply "a\r\n# b\n\t#c".toList (.carets [1, 0, 1]) = .ok "# a\r\nb\n\t#c".toList :=
    apply_eq_ok_iff.mpr (by decide +kernel)
  obtain ⟨result, again, hresult, hagain, hback⟩ := lines_toggled_twice _ _ (.carets [1, 0, 1]) hn
  rw [hfirst] at hresult
  cases hresult
  have hlines : ∀ n ∈ [1, 0, 1], ∀ content ∈ content? (ofText "a\r\n# b\n\t#c".toList) n,
      toggle (toggle content) = content := by
    decide +kernel
  refine ⟨hn, hfirst, ?_⟩
  rw [hagain, hback.mpr]
  intro n content ht hcontent
  cases ht with
  | caret h => exact hlines n h content hcontent

end Comment

end VoiceScript
