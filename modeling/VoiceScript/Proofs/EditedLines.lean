import Mathlib.Data.List.Basic
import VoiceScript.Proofs.RuleTwice
import VoiceScript.Proofs.ToggleTwice

namespace VoiceScript

namespace Comment

open Outline Line

variable {source result line cs : List Char} {lines : List Line} {request : Request}
  {direction : Direction} {n m : Nat}

/-- A line that is a comment sign alone, with a space behind it at most, after blanks of which the last is a
carriage return. -/
def IsSignAfterReturn (line : List Char) : Prop :=
  ∃ blanks, (∀ c ∈ blanks, Text.isBlank c = true) ∧ blanks.getLast? = some '\r' ∧
    (line = blanks ++ ['#'] ∨ line = blanks ++ ['#', ' '])

theorem strip_eq_nil_iff : strip cs = [] ↔ cs = [] ∨ cs = ['#'] ∨ cs = ['#', ' '] := by
  unfold strip
  split <;> simp_all

/-- What is left behind a sign ends as it did. -/
theorem getLast?_strip (h : strip cs ≠ []) : (strip cs).getLast? = cs.getLast? := by
  unfold strip at h ⊢
  split
  · rename_i rest
    obtain ⟨c, ds, rfl⟩ := List.exists_cons_of_ne_nil (l := rest) (by simpa using h)
    simp
  · rename_i rest hspace
    obtain ⟨c, ds, rfl⟩ := List.exists_cons_of_ne_nil (l := rest) (by simpa [strip] using h)
    simp
  · rfl

theorem getLast?_uncomment (h : strip (Text.trimStart line) ≠ []) :
    (uncomment line).getLast? = line.getLast? := by
  have hne : Text.trimStart line ≠ [] := by
    intro hnil
    rw [hnil] at h
    exact h rfl
  conv => rhs; rw [← Text.indent_append_trimStart line]
  rw [uncomment, List.getLast?_append_of_ne_nil _ h, List.getLast?_append_of_ne_nil _ hne,
    getLast?_strip h]

/-- Blanks, then a sign: the blanks are the indent, and what they leave is read from the sign on. -/
theorem uncomment_append_sign {blanks : List Char} (h : ∀ c ∈ blanks, Text.isBlank c = true)
    (rest : List Char) : uncomment (blanks ++ '#' :: rest) = blanks ++ strip ('#' :: rest) := by
  have htrim : Text.trimStart ('#' :: rest) = '#' :: rest := List.dropWhile_cons_of_neg (by decide)
  have hindent : Text.indent ('#' :: rest) = [] := List.takeWhile_cons_of_neg (by decide)
  rw [uncomment, Text.trimStart_append_of_blank h, htrim, Text.indent, List.takeWhile_append_of_pos h,
    ← Text.indent, hindent, List.append_nil]

theorem IsSignAfterReturn.getLast?_uncomment (h : IsSignAfterReturn line) :
    (uncomment line).getLast? = some '\r' := by
  obtain ⟨blanks, hblanks, hlast, rfl | rfl⟩ := h
  · rwa [uncomment_append_sign hblanks, strip_eq_nil_iff.mpr (by simp), List.append_nil]
  · rwa [uncomment_append_sign hblanks, strip_eq_nil_iff.mpr (by simp), List.append_nil]

theorem IsSignAfterReturn.isCommented (h : IsSignAfterReturn line) : isCommented line = true := by
  obtain ⟨blanks, hblanks, _, rfl | rfl⟩ := h
  · rw [isCommented_iff, Text.trimStart_append_of_blank hblanks]
    rfl
  · rw [isCommented_iff, Text.trimStart_append_of_blank hblanks]
    rfl

/-- A line that has no carriage return at its end gets one only if its sign was all that stood behind it. -/
theorem getLast?_uncomment_eq_return_iff (h : line.getLast? ≠ some '\r') :
    (uncomment line).getLast? = some '\r' ↔ IsSignAfterReturn line := by
  constructor
  · intro hlast
    have hstrip : strip (Text.trimStart line) = [] := by
      by_contra hne
      rw [getLast?_uncomment hne] at hlast
      exact h hlast
    rw [uncomment, hstrip, List.append_nil] at hlast
    have hline := Text.indent_append_trimStart line
    refine ⟨Text.indent line, fun c => Text.isBlank_of_mem_indent, hlast, ?_⟩
    rcases strip_eq_nil_iff.mp hstrip with htrim | htrim | htrim
    · rw [htrim, List.append_nil] at hline
      rw [← hline] at h
      exact absurd hlast h
    · exact .inl (by rw [← htrim, hline])
    · exact .inr (by rw [← htrim, hline])
  · exact IsSignAfterReturn.getLast?_uncomment

theorem getLast?_edit_eq_return_iff (direction : Direction) (h : line.getLast? ≠ some '\r') :
    (direction.edit line).getLast? = some '\r' ↔ direction ≠ .comment ∧ IsSignAfterReturn line := by
  cases direction with
  | comment => simpa [Direction.edit, getLast?_comment] using h
  | uncomment => simpa [Direction.edit] using getLast?_uncomment_eq_return_iff h
  | toggle =>
    change (toggle line).getLast? = some '\r' ↔ _
    cases hsign : Outline.isCommented line with
    | true => simpa [toggle_of_isCommented hsign] using getLast?_uncomment_eq_return_iff h
    | false =>
      have hnot : ¬ IsSignAfterReturn line := by
        intro hreturn
        rw [hreturn.isCommented] at hsign
        cases hsign
      simp [toggle_of_not_isCommented hsign, getLast?_comment, h, hnot]

/-- The direction that a request has for the lines that it targets. -/
inductive Directs (lines : List Line) : Request → Direction → Prop
  | line {n : Nat} : Directs lines (.line n) .toggle
  | carets {ns : List Nat} : Directs lines (.carets ns) .toggle
  | selection {a b : Nat} : Directs lines (.selection a b) .toggle
  /-- A rule is commented out. -/
  | inRule {n : Nat} {rule : LineRange} (found : findRule? lines n = some rule) :
      Directs lines (.rule n) .comment
  /-- Outside of all rules a line with a sign is uncommented, with the lines of the rule that it may hide. -/
  | commentedOut {n : Nat} (hnone : findRule? lines n = none)
      (sign : passes isCommented lines n = true) : Directs lines (.rule n) .uncomment
  /-- Outside of all rules a line without a sign is commented. -/
  | alone {n : Nat} (hnone : findRule? lines n = none)
      (sign : passes isCommented lines n = false) : Directs lines (.rule n) .comment
  | fromHeader {n : Nat} {direction : Direction} (header : passes isHeader lines n = true)
      (h : Directs lines (.rule n) direction) : Directs lines (.smart n) direction
  | offHeader {n : Nat} (header : passes isHeader lines n = false) : Directs lines (.smart n) .toggle

theorem first_commentedRule (lines : List Line) (n : Nat) : (commentedRule lines n).first = n := by
  unfold commentedRule
  dsimp only
  split <;> rfl

theorem direction_planRule (hnone : findRule? lines n = none) :
    (planRule lines n).direction = if passes isCommented lines n then .uncomment else .comment := by
  have hfirst : isCommented ((content? lines n).getD []) = passes isCommented lines n := by
    rw [passes]
    cases content? lines n with
    | none => rfl
    | some content => rfl
  rw [planRule, hnone, Option.getD_none, first_commentedRule, hfirst]

theorem directs_rule_iff :
    Directs lines (.rule n) direction ↔ (planRule lines n).direction = direction := by
  constructor
  · intro h
    cases h with
    | inRule found => rw [planRule_of_findRule? found]
    | commentedOut hnone sign => rw [direction_planRule hnone, if_pos sign]
    | alone hnone sign => rw [direction_planRule hnone, if_neg (by simp [sign])]
  · rintro rfl
    cases hfind : findRule? lines n with
    | some rule =>
      rw [planRule_of_findRule? hfind]
      exact .inRule hfind
    | none =>
      rw [direction_planRule hfind]
      split
      · rename_i sign
        exact .commentedOut hfind sign
      · rename_i sign
        exact .alone hfind (Bool.eq_false_iff.mpr sign)

/-- The plan of a request has the direction of the request. -/
theorem directs_iff : Directs lines request direction ↔ (plan lines request).direction = direction := by
  cases request with
  | line n | carets ns | selection a b =>
    constructor
    · rintro ⟨⟩
      rfl
    · rintro rfl
      constructor
  | rule n => exact directs_rule_iff
  | smart n =>
    rw [plan, isHeader_content?, ← passes]
    cases header : passes isHeader lines n with
    | true =>
      rw [if_pos rfl, ← directs_rule_iff]
      constructor
      · intro h
        cases h with
        | fromHeader _ h => exact h
        | offHeader header' => rw [header] at header'; cases header'
      · exact .fromHeader header
    | false =>
      rw [if_neg (by simp)]
      constructor
      · intro h
        cases h with
        | fromHeader header' _ => rw [header] at header'; cases header'
        | offHeader _ => rfl
      · rintro rfl
        exact .offHeader header

theorem lt_length_of_contains_commentedRule (hn : n < lines.length)
    (h : (commentedRule lines n).contains m = true) : m < lines.length := by
  unfold commentedRule at h
  dsimp only at h
  split at h
  · obtain ⟨hle, hhanging⟩ : n ≤ m ∧ ∀ i, n < i → i ≤ m → passes isHanging lines i = true :=
      contains_takeWhile_iff.mp h
    rcases Nat.eq_or_lt_of_le hle with rfl | hlt
    · exact hn
    · exact lt_length_of_passes (hhanging m hlt (Nat.le_refl m))
  · obtain ⟨_, hle⟩ := LineRange.contains_iff.mp h
    exact Nat.lt_of_le_of_lt hle hn

/-- No request targets a line that is not there, unless it names one. -/
theorem Targets.lt_length (h : Targets lines request n) (hnamed : ∀ m ∈ request.named, m < lines.length) :
    n < lines.length := by
  induction h with
  | line | offHeader _ => exact hnamed _ (List.mem_singleton_self _)
  | caret h => exact hnamed _ h
  | selected _ hb => exact Nat.lt_of_le_of_lt hb (hnamed _ (List.mem_singleton_self _))
  | inRule found h =>
    obtain ⟨header, hheader, rfl, _⟩ := findRule?_eq_some_iff_header.mp found
    obtain ⟨line, hline, _⟩ := exists_of_contains hheader h
    exact (List.getElem?_eq_some_iff.mp hline).1
  | commentedOut _ h =>
    exact lt_length_of_contains_commentedRule (hnamed _ (List.mem_singleton_self _)) h
  | fromHeader _ _ ih => exact ih hnamed

/-- When the edit of a line hands a carriage return over to the line feed behind it. -/
structure HandsOver (direction : Direction) (line : Line) : Prop where
  terminator : line.terminator = .lf
  direction : direction ≠ .comment
  content : IsSignAfterReturn line.content

theorem HandsOver.getLast?_edit {line : Line} (h : HandsOver direction line) (hs : line.settle = line) :
    (direction.edit line.content).getLast? = some '\r' :=
  (getLast?_edit_eq_return_iff direction (settle_eq_self_iff.mp hs h.terminator)).mpr
    ⟨h.direction, h.content⟩

theorem settle_edited_iff {line : Line} (hs : line.settle = line) :
    settle ⟨direction.edit line.content, line.terminator⟩ =
        ⟨direction.edit line.content, line.terminator⟩ ↔ ¬ HandsOver direction line := by
  rw [settle_eq_self_iff]
  constructor
  · intro h hover
    exact h hover.terminator (hover.getLast?_edit hs)
  · intro h hlf hlast
    have hend := settle_eq_self_iff.mp hs hlf
    obtain ⟨hdirection, hsign⟩ := (getLast?_edit_eq_return_iff direction hend).mp hlast
    exact h ⟨hlf, hdirection, hsign⟩

/-- A request has one direction, and each line that it targets is there. Split into lines, the new text has in
the place of such a line the edit of its content and the end that it had, unless the edit hands a carriage
return over. Then the line that comes of it is the blanks before the return, and its end is the return with the
line feed. -/
theorem edited_lines (source result : List Char) (request : Request)
    (h : apply source request = .ok result) :
    ∃ direction, (∀ other, Directs (ofText source) request other ↔ direction = other) ∧
      ∀ n, Targets (ofText source) request n → ∃ line, (ofText source)[n]? = some line ∧
        ((ofText result)[n]? = some ⟨direction.edit line.content, line.terminator⟩ ↔
          ¬ HandsOver direction line) ∧
        (HandsOver direction line → ∃ blanks, direction.edit line.content = blanks ++ ['\r'] ∧
          (ofText result)[n]? = some ⟨blanks, .crlf⟩) := by
  refine ⟨(plan (ofText source) request).direction, fun other => directs_iff, ?_⟩
  intro n hn
  have hnamed := missing?_eq_none_iff.mp (apply_eq_ok_iff.mp h).1
  obtain ⟨line, hline⟩ : ∃ line, (ofText source)[n]? = some line :=
    ⟨_, List.getElem?_eq_getElem (hn.lt_length hnamed)⟩
  have hs := settle_of_mem_ofText (List.mem_of_getElem? hline)
  have hresult : (ofText result)[n]? = some (settle
      ⟨(plan (ofText source) request).direction.edit line.content, line.terminator⟩) := by
    rw [ofText_apply h, List.getElem?_map, Plan.getElem?_apply_of_targets (targets_iff.mp hn), hline]
    rfl
  refine ⟨line, hline, ?_, ?_⟩
  · rw [hresult, Option.some_inj]
    exact settle_edited_iff hs
  · intro hover
    obtain ⟨blanks, hblanks⟩ := List.getLast?_eq_some_iff.mp (hover.getLast?_edit hs)
    refine ⟨blanks, hblanks, ?_⟩
    rw [hresult, hblanks, hover.terminator, settle, if_pos ⟨rfl, List.getLast?_concat⟩,
      List.dropLast_concat]

/-- Of two lines with a sign that are toggled, one keeps the end that it had, and the other one gets the return
that stood before its sign. -/
theorem carets_edited :
    apply "# x\r\n\r# \n".toList (.carets [1, 0]) = .ok "x\r\n\r\n".toList ∧
      (ofText "x\r\n\r\n".toList)[0]? = some ⟨['x'], .crlf⟩ ∧
      (ofText "x\r\n\r\n".toList)[1]? = some ⟨[], .crlf⟩ := by
  have happly : apply "# x\r\n\r# \n".toList (.carets [1, 0]) = .ok "x\r\n\r\n".toList :=
    apply_eq_ok_iff.mpr (by decide +kernel)
  have hfirst : (ofText "# x\r\n\r# \n".toList)[0]? = some ⟨"# x".toList, .crlf⟩ := by
    decide +kernel
  have hsecond : (ofText "# x\r\n\r# \n".toList)[1]? = some ⟨"\r# ".toList, .lf⟩ := by
    decide +kernel
  obtain ⟨direction, hdirection, hlines⟩ := edited_lines _ _ _ happly
  cases (hdirection .toggle).mp .carets
  obtain ⟨line, hline, hkept, _⟩ := hlines 0 (.caret (by decide))
  obtain ⟨line', hline', _, hhanded⟩ := hlines 1 (.caret (by decide))
  rw [hfirst] at hline
  rw [hsecond] at hline'
  cases hline
  cases hline'
  refine ⟨happly, ?_, ?_⟩
  · exact hkept.mpr fun hover => by cases hover.terminator
  · have hsign : IsSignAfterReturn "\r# ".toList :=
      ⟨['\r'], List.forall_mem_singleton.mpr (by decide), rfl, .inr rfl⟩
    obtain ⟨blanks, hblanks, hresult⟩ := hhanded ⟨rfl, by decide, hsign⟩
    have hedit : Direction.toggle.edit "\r# ".toList = [] ++ ['\r'] := by
      decide +kernel
    rw [hedit] at hblanks
    rw [hresult, ← List.append_cancel_right hblanks]

/-- The return of a line that ends with a line feed alone is part of the line's end once its sign is off. -/
theorem return_handed_over :
    apply "\r#\n".toList (.line 0) = .ok "\r\n".toList ∧
      (ofText "\r#\n".toList)[0]? = some ⟨"\r#".toList, .lf⟩ ∧ toggle "\r#".toList = ['\r'] ∧
      (ofText "\r\n".toList)[0]? = some ⟨[], .crlf⟩ := by
  decide +kernel

end Comment

end VoiceScript
