import VoiceScript.Line

namespace VoiceScript

/-- Of two ways to cut a text the one further on goes through the back part of the other. -/
theorem Text.exists_of_append_eq {as bs cs ds : List Char} (h : as ++ bs = cs ++ ds)
    (hle : byteLength as ≤ byteLength cs) : ∃ between, cs = as ++ between ∧ bs = between ++ ds := by
  rcases List.append_eq_append_iff.mp h with ⟨between, hcs, hbs⟩ | ⟨between, has, hds⟩
  · exact ⟨between, hcs, hbs⟩
  · have hnil : between = [] := by
      cases between with
      | nil => rfl
      | cons c between =>
        have := c.utf8Size_pos
        rw [has, byteLength_append, byteLength_cons] at hle
        omega
    subst hnil
    exact ⟨[], by simpa using has.symm, by simpa using hds.symm⟩

namespace Line

open Text

variable {line : Line} {lines : List Line} {a b n m d e : Nat} {c : Char} {as bs rest : List Char}

@[simp] theorem startOffset_zero (lines : List Line) : startOffset lines 0 = 0 := rfl

@[simp] theorem startOffset_succ (line : Line) (lines : List Line) (n : Nat) :
    startOffset (line :: lines) (n + 1) = byteLength line.text + startOffset lines n := by
  simp [startOffset]

theorem contentEnd?_zero (line : Line) (lines : List Line) :
    contentEnd? (line :: lines) 0 = some (byteLength line.content) := by
  simp [contentEnd?]

theorem contentEnd?_succ (line : Line) (lines : List Line) (n : Nat) :
    contentEnd? (line :: lines) (n + 1) =
      (contentEnd? lines n).map (byteLength line.text + ·) := by
  simp only [contentEnd?, List.getElem?_cons_succ, startOffset_succ, Option.map_map]
  congr 1
  funext line
  exact Nat.add_assoc _ _ _

theorem byteLength_content_le (line : Line) : byteLength line.content ≤ byteLength line.text := by
  rw [text, byteLength_append]
  exact Nat.le_add_right _ _

theorem exists_contentEnd? (h : n < lines.length) : ∃ e, contentEnd? lines n = some e := by
  rw [contentEnd?, List.getElem?_eq_getElem h]
  exact ⟨_, rfl⟩

theorem contentEnd_le_byteLength (h : contentEnd? lines n = some e) :
    e ≤ byteLength (join lines) := by
  induction lines generalizing n e with
  | nil => cases h
  | cons line lines ih =>
    have hline := byteLength_content_le line
    rw [join_cons, byteLength_append]
    cases n with
    | zero =>
      rw [contentEnd?_zero] at h
      cases h
      omega
    | succ n =>
      rw [contentEnd?_succ] at h
      obtain ⟨d, hd, rfl⟩ := Option.map_eq_some_iff.mp h
      have := ih hd
      omega

/-- A content further down ends further on. -/
theorem contentEnd_mono (hd : contentEnd? lines n = some d) (he : contentEnd? lines m = some e)
    (h : n ≤ m) : d ≤ e := by
  induction lines generalizing n m d e with
  | nil => cases hd
  | cons line lines ih =>
    have hline := byteLength_content_le line
    cases m with
    | zero =>
      rw [Nat.le_zero.mp h, he] at hd
      cases hd
      exact Nat.le_refl _
    | succ m =>
      rw [contentEnd?_succ] at he
      obtain ⟨e, he', rfl⟩ := Option.map_eq_some_iff.mp he
      cases n with
      | zero =>
        rw [contentEnd?_zero] at hd
        cases hd
        omega
      | succ n =>
        rw [contentEnd?_succ] at hd
        obtain ⟨d, hd', rfl⟩ := Option.map_eq_some_iff.mp hd
        have := ih hd' he' (Nat.le_of_succ_le_succ h)
        omega

theorem ofOffset_cons (h : lines ≠ []) (line : Line) (a : Nat) :
    ofOffset (line :: lines) a =
      if byteLength line.text ≤ a then ofOffset lines (a - byteLength line.text) + 1 else 0 := by
  cases lines with
  | nil => exact absurd rfl h
  | cons next lines => rw [ofOffset]

theorem ofOffset_lt_length (h : lines ≠ []) (a : Nat) : ofOffset lines a < lines.length := by
  fun_induction ofOffset lines a with
  | case1 => exact absurd rfl h
  | case2 => simp
  | case3 line next lines a size hsize ih =>
    have := ih (by simp)
    simp only [List.length_cons] at this ⊢
    omega
  | case4 => simp

/-- Where one line has a content, each offset is in a line that has one. -/
theorem exists_contentEnd?_ofOffset (h : contentEnd? lines n = some e) (a : Nat) :
    ∃ d, contentEnd? lines (ofOffset lines a) = some d := by
  apply exists_contentEnd?
  apply ofOffset_lt_length
  rintro rfl
  cases h

/-- An offset further on is in a line further down. -/
theorem ofOffset_mono (h : a ≤ b) : ofOffset lines a ≤ ofOffset lines b := by
  fun_induction ofOffset lines a generalizing b with
  | case1 => exact Nat.zero_le _
  | case2 => exact Nat.zero_le _
  | case3 line next lines a size hsize =>
    rename_i ih
    have hb : byteLength line.text ≤ b := Nat.le_trans hsize h
    rw [ofOffset, if_pos hb]
    exact Nat.succ_le_succ (ih (Nat.sub_le_sub_right h _))
  | case4 => exact Nat.zero_le _

/-- The contents above the line of an offset end before the offset. -/
theorem contentEnd_le_of_lt_ofOffset (he : contentEnd? lines n = some e)
    (h : n < ofOffset lines a) : e ≤ a := by
  fun_induction ofOffset lines a generalizing n e with
  | case1 => omega
  | case2 => omega
  | case3 line next lines a size hsize =>
    rename_i ih
    cases n with
    | zero =>
      rw [contentEnd?_zero] at he
      cases he
      exact Nat.le_trans (byteLength_content_le line) hsize
    | succ n =>
      rw [contentEnd?_succ] at he
      obtain ⟨d, hd, rfl⟩ := Option.map_eq_some_iff.mp he
      have := ih hd (by omega)
      omega
  | case4 => omega

theorem ofOffset_le_of_lt_contentEnd (he : contentEnd? lines n = some e) (h : a < e) :
    ofOffset lines a ≤ n := by
  apply Nat.le_of_not_lt
  intro hlt
  exact absurd (contentEnd_le_of_lt_ofOffset he hlt) (Nat.not_le_of_lt h)

theorem not_mem_terminator (hn : c ≠ '\n') (hr : c ≠ '\r') (terminator : Terminator) :
    c ∉ terminator.text := by
  cases terminator <;> simp [Terminator.text, hn, hr]

/-- A character of a line that can be no part of its end is part of its content. -/
theorem lt_byteLength_content (h : line.text ++ rest = as ++ c :: bs) (hn : c ≠ '\n')
    (hr : c ≠ '\r') (hlt : byteLength as < byteLength line.text) :
    byteLength as < byteLength line.content := by
  obtain ⟨tail, htext, htail⟩ := exists_of_append_eq h.symm (Nat.le_of_lt hlt)
  have hmem := not_mem_terminator hn hr line.terminator
  apply Nat.lt_of_not_le
  intro hle
  obtain ⟨front, rfl, hend⟩ := exists_of_append_eq htext hle
  cases tail with
  | nil =>
    rw [htext, List.append_nil] at hlt
    exact Nat.lt_irrefl _ hlt
  | cons d tail =>
    cases (List.cons.inj htail).1
    apply hmem
    rw [hend]
    simp

theorem lt_contentEnd (h : join lines = as ++ c :: bs) (hn : c ≠ '\n') (hr : c ≠ '\r')
    (he : contentEnd? lines (ofOffset lines (byteLength as)) = some e) : byteLength as < e := by
  induction lines generalizing as e with
  | nil => simp at h
  | cons line lines ih =>
    rw [join_cons] at h
    cases lines with
    | nil =>
      rw [ofOffset, contentEnd?_zero] at he
      cases he
      apply lt_byteLength_content h hn hr
      have hlength := congrArg byteLength h
      have := c.utf8Size_pos
      simp only [byteLength_append, byteLength_cons, join_nil, byteLength_nil] at hlength
      omega
    | cons next lines =>
      rw [ofOffset] at he
      split at he
      · rename_i hsize
        rw [contentEnd?_succ] at he
        obtain ⟨d, hd, rfl⟩ := Option.map_eq_some_iff.mp he
        obtain ⟨front, rfl, hrest⟩ := exists_of_append_eq h hsize
        rw [byteLength_append, Nat.add_sub_cancel_left] at hd
        have := ih hrest hd
        rw [byteLength_append]
        omega
      · rename_i hsize
        rw [contentEnd?_zero] at he
        cases he
        exact lt_byteLength_content h hn hr (Nat.lt_of_not_le hsize)

end Line

end VoiceScript
