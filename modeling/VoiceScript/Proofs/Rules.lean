import VoiceScript.Outline

namespace VoiceScript

namespace LineRange

variable {r : LineRange} {n : Nat}

@[simp] theorem contains_iff : r.contains n = true ↔ r.first ≤ n ∧ n ≤ r.last := by
  simp [contains]

theorem contains_eq_false_iff : r.contains n = false ↔ n < r.first ∨ r.last < n := by
  rw [← Bool.not_eq_true, contains_iff]
  omega

end LineRange

namespace Line

/-- Whether there is a line of that number and its content passes a test. -/
def passes (test : List Char → Bool) (lines : List Line) (n : Nat) : Bool :=
  (content? lines n).any test

variable {test : List Char → Bool} {lines : List Line} {n : Nat}

theorem passes_iff :
    passes test lines n = true ↔ ∃ line, lines[n]? = some line ∧ test line.content = true := by
  rw [passes, content?, Option.any_map, Option.any_eq_true]

theorem passes_of_getElem? {line : Line} (h : lines[n]? = some line) :
    passes test lines n = test line.content := by
  rw [passes, content?, h, Option.map_some, Option.any_some]

theorem lt_length_of_passes (h : passes test lines n = true) : n < lines.length := by
  obtain ⟨line, hline, _⟩ := passes_iff.mp h
  exact (List.getElem?_eq_some_iff.mp hline).1

/-- How long a run of lines is that pass a test. -/
theorem le_length_takeWhile_iff {k : Nat} :
    k ≤ (lines.takeWhile fun line => test line.content).length ↔
      ∀ i, i < k → passes test lines i = true := by
  induction lines generalizing k with
  | nil =>
    rw [List.takeWhile_nil, List.length_nil]
    constructor
    · intro hk i hi
      omega
    · intro h
      apply Nat.le_of_not_lt
      intro hk
      cases h 0 hk
  | cons line lines ih =>
    cases k with
    | zero => simp
    | succ k =>
      rw [List.takeWhile_cons]
      cases hl : test line.content with
      | false =>
        constructor
        · simp
        · intro h
          have h0 := h 0 (Nat.succ_pos k)
          rw [passes_of_getElem? List.getElem?_cons_zero, hl] at h0
          cases h0
      | true =>
        rw [if_pos rfl, List.length_cons, Nat.add_le_add_iff_right, ih]
        constructor
        · intro h i hi
          cases i with
          | zero => exact (passes_of_getElem? List.getElem?_cons_zero).trans hl
          | succ i => exact h i (Nat.lt_of_succ_lt_succ hi)
        · intro h i hi
          exact h (i + 1) (Nat.succ_lt_succ hi)

/-- A line and the run of lines below it that pass a test, as a range. -/
theorem contains_takeWhile_iff {m : Nat} :
    LineRange.contains
        ⟨n, n + ((lines.drop (n + 1)).takeWhile fun line => test line.content).length⟩ m = true ↔
      n ≤ m ∧ ∀ i, n < i → i ≤ m → passes test lines i = true := by
  rw [LineRange.contains_iff]
  apply and_congr_right
  intro h
  have hdrop : ∀ i, passes test (lines.drop (n + 1)) i = passes test lines (n + 1 + i) := by
    intro i
    rw [passes, passes, content?, content?, List.getElem?_drop]
  have hsub : m ≤ n + ((lines.drop (n + 1)).takeWhile fun line => test line.content).length ↔
      m - n ≤ ((lines.drop (n + 1)).takeWhile fun line => test line.content).length := by
    omega
  rw [hsub, le_length_takeWhile_iff]
  constructor
  · intro hp i hn hm
    have hi := hp (i - (n + 1)) (by omega)
    rwa [hdrop, Nat.add_sub_cancel' hn] at hi
  · intro hp i hi
    rw [hdrop]
    exact hp _ (by omega) (by omega)

end Line

namespace Outline

open Line

variable {line : List Char} {lines : List Line} {rule : LineRange} {n m d : Nat}

theorem isCommented_of_head? (h : line.head? = some '#') : isCommented line = true := by
  cases line with
  | nil => cases h
  | cons c cs =>
    cases h
    rfl

theorem isHeader_of_isCommented (h : isCommented line = true) : isHeader line = false := by
  rw [isHeader, h, Bool.not_true, Bool.and_false]

/-- A body line neither opens a rule nor stops the way up to one. -/
theorem isHeader_of_isBody (h : isBody line = true) :
    isHeader line = false ∧ isBlank line = false ∧ isSeparator line = false := by
  simp only [isBody, Bool.and_eq_true, Bool.or_eq_true, Bool.not_eq_true', beq_iff_eq] at h
  obtain ⟨⟨hblank, hseparator⟩, hmargin | ⟨_, hheader⟩⟩ := h
  · exact ⟨isHeader_of_isCommented (isCommented_of_head? hmargin), hblank, hseparator⟩
  · exact ⟨hheader, hblank, hseparator⟩

/-- A rule has a line if all lines from below its header up to that line are body lines. -/
theorem contains_ruleAt_iff :
    (ruleAt lines n).contains m = true ↔
      n ≤ m ∧ ∀ i, n < i → i ≤ m → passes isBody lines i = true :=
  contains_takeWhile_iff

theorem contains_ruleAt_self (lines : List Line) (n : Nat) :
    (ruleAt lines n).contains n = true :=
  contains_ruleAt_iff.mpr ⟨Nat.le_refl n, by omega⟩

theorem contains_ruleAt_last (lines : List Line) (n : Nat) :
    (ruleAt lines n).contains (ruleAt lines n).last = true :=
  LineRange.contains_iff.mpr ⟨Nat.le_add_right _ _, Nat.le_refl _⟩

/-- No header is a body line of a rule above it. -/
theorem last_ruleAt_lt (h : passes isHeader lines m = true) (hn : n < m) :
    (ruleAt lines n).last < m := by
  apply Nat.lt_of_not_le
  intro hlast
  have hm : (ruleAt lines n).contains m = true :=
    LineRange.contains_iff.mpr ⟨Nat.le_of_lt hn, hlast⟩
  obtain ⟨found, hfound, hbody⟩ := passes_iff.mp ((contains_ruleAt_iff.mp hm).2 m hn (Nat.le_refl m))
  rw [passes_of_getElem? hfound, (isHeader_of_isBody hbody).1] at h
  cases h

theorem lt_length_of_contains (h : passes isHeader lines n = true)
    (hm : (ruleAt lines n).contains m = true) : m < lines.length := by
  obtain ⟨hn, hbody⟩ := contains_ruleAt_iff.mp hm
  rcases Nat.eq_or_lt_of_le hn with rfl | hlt
  · exact lt_length_of_passes h
  · exact lt_length_of_passes (hbody m hlt (Nat.le_refl m))

theorem header_of_headerDistance? {above : List Line} (h : headerDistance? above = some d) :
    passes isHeader above d = true := by
  induction above generalizing d with
  | nil => cases h
  | cons first above ih =>
    rw [headerDistance?] at h
    split at h
    · rename_i hfirst
      cases h
      exact (passes_of_getElem? List.getElem?_cons_zero).trans hfirst
    · split at h
      · cases h
      · obtain ⟨rest, hrest, rfl⟩ := Option.map_eq_some_iff.mp h
        exact ih hrest

theorem headerDistance?_of_body {above : List Line} (hd : passes isHeader above d = true)
    (hbody : ∀ i, i < d → passes isBody above i = true) : headerDistance? above = some d := by
  induction above generalizing d with
  | nil => cases hd
  | cons first above ih =>
    rw [headerDistance?]
    cases d with
    | zero =>
      rw [passes_of_getElem? List.getElem?_cons_zero] at hd
      rw [if_pos hd]
    | succ d =>
      have hfirst := hbody 0 (Nat.succ_pos d)
      rw [passes_of_getElem? List.getElem?_cons_zero] at hfirst
      obtain ⟨hheader, hblank, hseparator⟩ := isHeader_of_isBody hfirst
      have habove := ih (d := d) hd fun i hi => hbody (i + 1) (Nat.succ_lt_succ hi)
      simp [hheader, hblank, hseparator, habove]

/-- Lines counted from one of them upward. -/
theorem passes_reverse_take {test : List Char → Bool} (hn : n < lines.length) (hd : d ≤ n) :
    passes test (lines.take (n + 1)).reverse d = passes test lines (n - d) := by
  have hlength : (lines.take (n + 1)).length = n + 1 := by
    rw [List.length_take]
    omega
  rw [passes, passes, content?, content?, List.getElem?_reverse (by omega), hlength,
    List.getElem?_take_of_lt (by omega), Nat.add_sub_cancel]

/-- A rule is found from a line if a header has the line in its rule. -/
theorem findRule?_eq_some_iff_header :
    findRule? lines n = some rule ↔
      ∃ header, passes isHeader lines header = true ∧ rule = ruleAt lines header ∧
        rule.contains n = true := by
  constructor
  · intro h
    rw [findRule?] at h
    split at h
    · rename_i hn
      split at h
      · cases h
      · rename_i distance hdistance
        have hheader := header_of_headerDistance? hdistance
        have hd : distance ≤ n := by
          have hlt := lt_length_of_passes hheader
          rw [List.length_reverse, List.length_take] at hlt
          omega
        rw [passes_reverse_take hn hd] at hheader
        obtain ⟨hcontains, hrule⟩ := Option.ite_none_right_eq_some.mp h
        cases hrule
        exact ⟨_, hheader, rfl, hcontains⟩
    · cases h
  · rintro ⟨header, hheader, rfl, hcontains⟩
    obtain ⟨hle, hbody⟩ := contains_ruleAt_iff.mp hcontains
    have hn := lt_length_of_contains hheader hcontains
    have hdistance : headerDistance? (lines.take (n + 1)).reverse = some (n - header) := by
      apply headerDistance?_of_body
      · rwa [passes_reverse_take hn (by omega), Nat.sub_sub_self hle]
      · intro i hi
        rw [passes_reverse_take hn (by omega)]
        exact hbody _ (by omega) (by omega)
    rw [findRule?, if_pos hn, hdistance]
    simp only [Nat.sub_sub_self hle, hcontains, if_true]

theorem mem_headers_iff : n ∈ headers lines ↔ passes isHeader lines n = true := by
  rw [passes_iff, headers, List.mem_map]
  constructor
  · rintro ⟨⟨found, i⟩, hmem, rfl⟩
    obtain ⟨hfound, hheader⟩ := List.mem_filter.mp hmem
    exact ⟨found, List.mk_mem_zipIdx_iff_getElem?.mp hfound, hheader⟩
  · rintro ⟨found, hfound, hheader⟩
    exact ⟨(found, n), List.mem_filter.mpr ⟨List.mk_mem_zipIdx_iff_getElem?.mpr hfound, hheader⟩, rfl⟩

theorem headers_ascending (lines : List Line) : (headers lines).Pairwise (· < ·) := by
  have hall : (lines.zipIdx.map Prod.snd).Pairwise (· < ·) := by
    rw [List.zipIdx_map_snd]
    exact List.pairwise_lt_range'
  exact hall.sublist (List.filter_sublist.map Prod.snd)

theorem mem_rules_iff :
    rule ∈ rules lines ↔ ∃ header, passes isHeader lines header = true ∧
      rule = ruleAt lines header := by
  simp only [rules, List.mem_map, mem_headers_iff, eq_comm]

theorem findRule?_eq_some_iff :
    findRule? lines n = some rule ↔ rule ∈ rules lines ∧ rule.contains n = true := by
  rw [findRule?_eq_some_iff_header, mem_rules_iff]
  constructor
  · rintro ⟨header, hheader, hrule, hcontains⟩
    exact ⟨⟨header, hheader, hrule⟩, hcontains⟩
  · rintro ⟨⟨header, hheader, hrule⟩, hcontains⟩
    exact ⟨header, hheader, hrule, hcontains⟩

theorem findRule?_eq_none_iff :
    findRule? lines n = none ↔ ∀ rule ∈ rules lines, rule.contains n = false := by
  constructor
  · intro h rule hrule
    apply Bool.eq_false_iff.mpr
    intro hcontains
    rw [findRule?_eq_some_iff.mpr ⟨hrule, hcontains⟩] at h
    cases h
  · intro h
    cases hfind : findRule? lines n with
    | none => rfl
    | some rule =>
      obtain ⟨hrule, hcontains⟩ := findRule?_eq_some_iff.mp hfind
      rw [h rule hrule] at hcontains
      cases hcontains

/-- A rule ends above the header of the next one. -/
theorem rules_apart (lines : List Line) :
    (rules lines).Pairwise fun a b => a.last < b.first := by
  apply List.pairwise_map.mpr
  apply (headers_ascending lines).imp_of_mem
  intro a b _ hb hab
  exact last_ruleAt_lt (mem_headers_iff.mp hb) hab

/-- The rules of a text stand one below the other and have lines of the text alone, and looking for the
rule of a line is looking it up in their list. So every line of a rule leads to it, and from a line of
none, or past the end, no rule is found. -/
theorem rules_lookup (source : List Char) :
    (rules (ofText source)).Pairwise (fun a b => a.last < b.first) ∧
    (∀ rule ∈ rules (ofText source),
      rule.first ≤ rule.last ∧ rule.last < (ofText source).length) ∧
    (∀ n rule, findRule? (ofText source) n = some rule ↔
      rule ∈ rules (ofText source) ∧ rule.contains n = true) ∧
    (∀ n rule, findRule? (ofText source) n = some rule →
      ∀ m, rule.contains m = true → findRule? (ofText source) m = some rule) ∧
    (∀ n, findRule? (ofText source) n = none ↔
      ∀ rule ∈ rules (ofText source), rule.contains n = false) ∧
    ∀ n, (ofText source).length ≤ n → findRule? (ofText source) n = none := by
  have hbounds : ∀ rule ∈ rules (ofText source),
      rule.first ≤ rule.last ∧ rule.last < (ofText source).length := by
    intro rule hrule
    obtain ⟨header, hheader, rfl⟩ := mem_rules_iff.mp hrule
    exact ⟨Nat.le_add_right _ _,
      lt_length_of_contains hheader (contains_ruleAt_last (ofText source) header)⟩
  refine ⟨rules_apart (ofText source), hbounds, fun n rule => findRule?_eq_some_iff, ?_,
    fun n => findRule?_eq_none_iff, ?_⟩
  · intro n rule hn m hm
    exact findRule?_eq_some_iff.mpr ⟨(findRule?_eq_some_iff.mp hn).1, hm⟩
  · intro n hn
    apply findRule?_eq_none_iff.mpr
    intro rule hrule
    apply Bool.eq_false_iff.mpr
    intro hcontains
    have hlast := (hbounds rule hrule).2
    have hle := (LineRange.contains_iff.mp hcontains).2
    omega

end Outline

end VoiceScript
