import Mathlib.Data.List.TakeWhile
import VoiceScript.Comment
import VoiceScript.Proofs.Rules

namespace VoiceScript

variable {line cs : List Char} {c : Char}

namespace Text

theorem trimStart_append_of_blank {lead : List Char} (h : ∀ c ∈ lead, isBlank c = true)
    (rest : List Char) : trimStart (lead ++ rest) = trimStart rest :=
  List.dropWhile_append_of_pos h

theorem isBlank_of_mem_indent (h : c ∈ indent line) : isBlank c = true :=
  List.all_eq_true.mp List.all_takeWhile c h

/-- Trimming at the end keeps the first character. -/
theorem head?_trim (h : (trimStart line).head? = some c) (hc : isBlank c = false) :
    (trim line).head? = some c := by
  obtain ⟨rest, hrest⟩ := List.head?_eq_some_iff.mp h
  rw [trim, hrest, List.reverse_cons, trimStart, List.dropWhile_append]
  split
  · simp [hc]
  · simp

end Text

namespace Outline

theorem isBlank_iff_trimStart : isBlank line = true ↔ Text.trimStart line = [] := by
  simp [isBlank, Text.trimStart, List.dropWhile_eq_nil_iff]

theorem trimStart_ne_nil (h : isBlank line = false) : Text.trimStart line ≠ [] := by
  intro hnil
  rw [isBlank_iff_trimStart.mpr hnil] at h
  cases h

theorem isCommented_of_isBlank (h : isBlank line = true) : isCommented line = false := by
  rw [isCommented, isBlank_iff_trimStart.mp h]
  rfl

theorem isBlank_of_isHeader (h : isHeader line = true) : isBlank line = false := by
  apply Bool.eq_false_iff.mpr
  intro hblank
  rw [isHeader, Text.trim, isBlank_iff_trimStart.mp hblank] at h
  cases h

end Outline

namespace Comment

open Outline

theorem comment_of_isBlank (h : isBlank line = true) : comment line = line := by
  rw [comment, if_pos h]

theorem comment_of_not_isBlank (h : isBlank line = false) :
    comment line = Text.indent line ++ '#' :: ' ' :: Text.trimStart line := by
  rw [comment, if_neg (by simp [h])]

theorem indent_comment (line : List Char) : Text.indent (comment line) = Text.indent line := by
  cases h : isBlank line with
  | true => rw [comment_of_isBlank h]
  | false =>
    have hlead : ∀ c ∈ Text.indent line, Text.isBlank c = true := fun _ => Text.isBlank_of_mem_indent
    rw [comment_of_not_isBlank h]
    conv => lhs; rw [Text.indent, List.takeWhile_append_of_pos hlead]
    rw [List.takeWhile_cons_of_neg (by decide), List.append_nil]

theorem trimStart_comment (h : isBlank line = false) :
    Text.trimStart (comment line) = '#' :: ' ' :: Text.trimStart line := by
  rw [comment_of_not_isBlank h, Text.trimStart_append_of_blank fun _ => Text.isBlank_of_mem_indent]
  exact List.dropWhile_cons_of_neg (by decide)

theorem isCommented_comment (h : isBlank line = false) : isCommented (comment line) = true := by
  rw [isCommented, trimStart_comment h]
  rfl

theorem isBlank_comment (line : List Char) : isBlank (comment line) = isBlank line := by
  cases h : isBlank line with
  | true => rw [comment_of_isBlank h, h]
  | false =>
    apply Bool.eq_false_iff.mpr
    intro hblank
    have hnil := isBlank_iff_trimStart.mp hblank
    rw [trimStart_comment h] at hnil
    cases hnil

theorem head?_comment (h : isBlank line = false) (hi : isIndented line = false) :
    (comment line).head? = some '#' := by
  have hindent : Text.indent line = [] := by
    cases line with
    | nil => rfl
    | cons c cs => exact List.takeWhile_cons_of_neg (by simpa [isIndented] using hi)
  rw [comment_of_not_isBlank h, hindent]
  rfl

theorem isIndented_comment (line : List Char) : isIndented (comment line) = isIndented line := by
  cases h : isBlank line with
  | true => rw [comment_of_isBlank h]
  | false =>
    cases hi : isIndented line with
    | false =>
      rw [isIndented, head?_comment h hi]
      decide
    | true =>
      cases line with
      | nil => cases hi
      | cons c cs =>
        have hc : Text.isBlank c = true := hi
        have hindent : Text.indent (c :: cs) = c :: Text.indent cs := List.takeWhile_cons_of_pos hc
        rw [comment_of_not_isBlank h, hindent]
        exact hc

theorem isSeparator_comment (h : isBlank line = false) : isSeparator (comment line) = false := by
  have hhead : (Text.trim (comment line)).head? = some '#' :=
    Text.head?_trim (by rw [trimStart_comment h]; rfl) (by decide)
  obtain ⟨rest, hrest⟩ := List.head?_eq_some_iff.mp hhead
  simp [isSeparator, hrest]

/-- Any line with a sign on is a body line: a comment at the margin, or an indented line that is no
header. -/
theorem isBody_comment (h : isBlank line = false) : isBody (comment line) = true := by
  rw [isBody, isBlank_comment, h, isSeparator_comment h, isIndented_comment,
    isHeader_of_isCommented (isCommented_comment h)]
  cases hi : isIndented line with
  | true => simp
  | false => simp [head?_comment h hi]

/-- The line ends as it did. -/
theorem getLast?_comment (line : List Char) : (comment line).getLast? = line.getLast? := by
  cases h : isBlank line with
  | true => rw [comment_of_isBlank h]
  | false =>
    have hne := trimStart_ne_nil h
    have hline := Text.indent_append_trimStart line
    obtain ⟨c, cs, hc⟩ := List.exists_cons_of_ne_nil hne
    rw [comment_of_not_isBlank h]
    conv => rhs; rw [← hline]
    rw [hc, List.getLast?_append, List.getLast?_append]
    rfl

theorem length_comment (h : isBlank line = false) : (comment line).length = line.length + 2 := by
  conv => rhs; rw [← Text.indent_append_trimStart line]
  rw [comment_of_not_isBlank h]
  simp only [List.length_append, List.length_cons]
  omega

theorem comment_ne (h : isBlank line = false) : comment line ≠ line := by
  intro heq
  have hlength := length_comment h
  rw [heq] at hlength
  omega

theorem strip_of_head? (h : cs.head? ≠ some '#') : strip cs = cs := by
  unfold strip
  split
  · exact absurd rfl h
  · exact absurd rfl h
  · rfl

theorem length_strip_lt (h : cs.head? = some '#') : (strip cs).length < cs.length := by
  unfold strip
  split
  · simp only [List.length_cons]
    omega
  · simp only [List.length_cons]
    omega
  · rename_i hsign
    obtain ⟨rest, rfl⟩ := List.head?_eq_some_iff.mp h
    exact absurd rfl (hsign rest)

theorem uncomment_of_not_isCommented (h : isCommented line = false) : uncomment line = line := by
  rw [uncomment, strip_of_head?, Text.indent_append_trimStart]
  simpa [isCommented] using h

theorem length_uncomment_lt (h : isCommented line = true) : (uncomment line).length < line.length := by
  have hsign : (Text.trimStart line).head? = some '#' := by simpa [isCommented] using h
  have hstrip := length_strip_lt hsign
  conv => rhs; rw [← Text.indent_append_trimStart line]
  rw [uncomment, List.length_append, List.length_append]
  omega

theorem uncomment_ne (h : isCommented line = true) : uncomment line ≠ line := by
  intro heq
  have hlength := length_uncomment_lt h
  rw [heq] at hlength
  exact Nat.lt_irrefl _ hlength

/-- Taking off the sign that was put on gives the line back. -/
theorem uncomment_comment (line : List Char) : uncomment (comment line) = line := by
  cases h : isBlank line with
  | true => rw [comment_of_isBlank h, uncomment_of_not_isCommented (isCommented_of_isBlank h)]
  | false =>
    rw [uncomment, indent_comment, trimStart_comment h, strip, Text.indent_append_trimStart]

theorem mem_comment (h : c ∈ comment line) : c ∈ line ∨ c = '#' ∨ c = ' ' := by
  unfold comment at h
  split at h
  · exact .inl h
  · rw [← Text.indent_append_trimStart line]
    simp only [List.mem_append, List.mem_cons] at h ⊢
    rcases h with h | h | h | h
    · exact .inl (.inl h)
    · exact .inr (.inl h)
    · exact .inr (.inr h)
    · exact .inl (.inr h)

theorem mem_of_mem_strip (h : c ∈ strip line) : c ∈ line := by
  unfold strip at h
  split at h
  · exact List.mem_cons_of_mem _ (List.mem_cons_of_mem _ h)
  · exact List.mem_cons_of_mem _ h
  · exact h

theorem mem_of_mem_uncomment (h : c ∈ uncomment line) : c ∈ line := by
  rw [← Text.indent_append_trimStart line]
  rcases List.mem_append.mp h with h | h
  · exact List.mem_append_left _ h
  · exact List.mem_append_right _ (mem_of_mem_strip h)

/-- An edit brings no other characters than a comment sign and a space. -/
theorem mem_edit {direction : Direction} (h : c ∈ direction.edit line) :
    c ∈ line ∨ c = '#' ∨ c = ' ' := by
  cases direction with
  | toggle =>
    change c ∈ Comment.toggle line at h
    unfold toggle at h
    split at h
    · exact .inl (mem_of_mem_uncomment h)
    · exact mem_comment h
  | comment => exact mem_comment h
  | uncomment => exact .inl (mem_of_mem_uncomment h)

theorem newline_not_mem_edit (direction : Direction) (h : '\n' ∉ line) :
    '\n' ∉ direction.edit line := by
  intro hmem
  rcases mem_edit hmem with hline | hsign | hspace
  · exact h hline
  · cases hsign
  · cases hspace

end Comment

end VoiceScript
