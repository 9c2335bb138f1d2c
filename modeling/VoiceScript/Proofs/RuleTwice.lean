import VoiceScript.Proofs.Untouched

namespace VoiceScript

theorem Line.with_content_eq_iff {line : Line} {content : List Char} :
    { line with content := content } = line ↔ content = line.content := by
  obtain ⟨_, _⟩ := line
  simp

namespace Outline

open Line

/-- A line that an indented row of lines goes on with. -/
def isHanging (line : List Char) : Bool :=
  !isBlank line && isIndented line

/-- What makes a whole rule come back when it is toggled twice from its header. -/
structure Restorable (lines : List Line) (header : Nat) : Prop where
  /-- No rule above reaches down to the header. -/
  apart : ∀ rule ∈ rules lines, rule.last + 1 ≠ header
  /-- The body has no comment at the margin. -/
  indented : ∀ n, header < n → (ruleAt lines header).contains n = true →
    passes isIndented lines n = true
  /-- No comment is among the indented lines that follow the rule without a gap. -/
  uncommented : ∀ n, (ruleAt lines header).last < n →
    (∀ i, (ruleAt lines header).last < i → i ≤ n → passes isHanging lines i = true) →
    passes isCommented lines n = false

variable {lines : List Line} {n m : Nat}

/-- No line of a rule is blank. -/
theorem exists_of_contains (header : passes isHeader lines n = true)
    (hm : (ruleAt lines n).contains m = true) :
    ∃ line, lines[m]? = some line ∧ isBlank line.content = false := by
  obtain ⟨hn, hbody⟩ := contains_ruleAt_iff.mp hm
  rcases Nat.eq_or_lt_of_le hn with rfl | hlt
  · obtain ⟨line, hline, hheader⟩ := passes_iff.mp header
    exact ⟨line, hline, isBlank_of_isHeader hheader⟩
  · obtain ⟨line, hline, hb⟩ := passes_iff.mp (hbody m hlt (Nat.le_refl m))
    exact ⟨line, hline, (isHeader_of_isBody hb).2.1⟩

end Outline

namespace Comment

open Outline Line

variable {source : List Char} {lines : List Line} {rule : LineRange} {test : List Char → Bool}
  {n m : Nat}

/-- The lines of a text with the rule of a header commented out. -/
def silenced (lines : List Line) (header : Nat) : List Line :=
  Plan.apply ⟨(ruleAt lines header).contains, .comment⟩ lines

/-- A rule that is found is commented out. -/
theorem planRule_of_findRule? (h : findRule? lines n = some rule) :
    planRule lines n = ⟨rule.contains, .comment⟩ := by
  obtain ⟨header, hheader, rfl, _⟩ := findRule?_eq_some_iff_header.mp h
  obtain ⟨line, hline, hl⟩ := passes_iff.mp hheader
  have hfirst : (content? lines (ruleAt lines header).first).getD [] = line.content := by
    rw [ruleAt, content?, hline]
    rfl
  have hcommented : isCommented line.content = false := by
    apply Bool.eq_false_iff.mpr
    intro hc
    rw [isHeader_of_isCommented hc] at hl
    cases hl
  rw [planRule, h, Option.getD_some, hfirst, hcommented]
  rfl

theorem planRule_of_isHeader (header : passes isHeader lines n = true) :
    planRule lines n = ⟨(ruleAt lines n).contains, .comment⟩ :=
  planRule_of_findRule? (findRule?_eq_some_iff_header.mpr
    ⟨n, header, rfl, contains_ruleAt_self lines n⟩)

theorem getElem?_silenced_of_contains (h : (ruleAt lines n).contains m = true) :
    (silenced lines n)[m]? = lines[m]?.map fun line => { line with content := comment line.content } :=
  Plan.getElem?_apply_of_targets h lines

theorem getElem?_silenced_of_not_contains (h : (ruleAt lines n).contains m = false) :
    (silenced lines n)[m]? = lines[m]? :=
  Plan.getElem?_apply_of_not_targets h lines

theorem passes_silenced_of_contains (h : (ruleAt lines n).contains m = true) :
    passes test (silenced lines n) m = passes (fun line => test (comment line)) lines m :=
  Plan.passes_apply_of_targets h test lines

theorem passes_silenced_of_not_contains (h : (ruleAt lines n).contains m = false) :
    passes test (silenced lines n) m = passes test lines m :=
  Plan.passes_apply_of_not_targets h test lines

theorem contains_ruleAt_of_lt (h : m < n) : (ruleAt lines n).contains m = false :=
  LineRange.contains_eq_false_iff.mpr (.inl h)

theorem isBody_silenced (header : passes isHeader lines n = true)
    (hm : (ruleAt lines n).contains m = true) : passes isBody (silenced lines n) m = true := by
  obtain ⟨line, hline, hblank⟩ := exists_of_contains header hm
  rw [passes_silenced_of_contains hm, passes_of_getElem? hline, isBody_comment hblank]

theorem isHanging_silenced (header : passes isHeader lines n = true)
    (hm : (ruleAt lines n).contains m = true) :
    passes isHanging (silenced lines n) m = passes isIndented lines m := by
  obtain ⟨line, hline, hblank⟩ := exists_of_contains header hm
  rw [passes_silenced_of_contains hm, passes_of_getElem? hline, passes_of_getElem? hline, isHanging,
    isBlank_comment, isIndented_comment, hblank]
  rfl

/-- A rule that reaches down to the header takes its comment in. -/
theorem findRule?_silenced_of_reaching {above : Nat} (header : passes isHeader lines n = true)
    (habove : passes isHeader lines above = true) (hlast : (ruleAt lines above).last + 1 = n) :
    findRule? (silenced lines n) n = some (ruleAt (silenced lines n) above) := by
  have hcontains := contains_ruleAt_iff.mp (contains_ruleAt_last lines above)
  have hlt : above < n := by omega
  apply findRule?_eq_some_iff_header.mpr
  refine ⟨above, ?_, rfl, contains_ruleAt_iff.mpr ⟨Nat.le_of_lt hlt, ?_⟩⟩
  · rw [passes_silenced_of_not_contains (contains_ruleAt_of_lt hlt), habove]
  · intro i hi hn
    rcases Nat.eq_or_lt_of_le hn with rfl | hin
    · exact isBody_silenced header (contains_ruleAt_self lines i)
    · rw [passes_silenced_of_not_contains (contains_ruleAt_of_lt hin)]
      exact hcontains.2 i hi (by omega)

/-- A rule that takes the comment of a header in reached down to that header. -/
theorem last_of_findRule?_silenced (header : passes isHeader lines n = true)
    (hfind : findRule? (silenced lines n) n = some rule) :
    ∃ above ∈ rules lines, above.last + 1 = n := by
  have hself := contains_ruleAt_self lines n
  obtain ⟨above, habove, rfl, hcontains⟩ := findRule?_eq_some_iff_header.mp hfind
  obtain ⟨hle, hbody⟩ := contains_ruleAt_iff.mp hcontains
  have hne : above ≠ n := by
    rintro rfl
    obtain ⟨line, hline, hblank⟩ := exists_of_contains header hself
    rw [passes_silenced_of_contains hself, passes_of_getElem? hline,
      isHeader_of_isCommented (isCommented_comment hblank)] at habove
    cases habove
  have hlt : above < n := Nat.lt_of_le_of_ne hle hne
  rw [passes_silenced_of_not_contains (contains_ruleAt_of_lt hlt)] at habove
  have hprevious : (ruleAt lines above).contains (n - 1) = true := by
    apply contains_ruleAt_iff.mpr
    refine ⟨by omega, ?_⟩
    intro i hi hin
    have hb := hbody i hi (by omega)
    rwa [passes_silenced_of_not_contains (contains_ruleAt_of_lt (by omega))] at hb
  have hlast := (LineRange.contains_iff.mp hprevious).2
  have hend := last_ruleAt_lt header hlt
  exact ⟨_, mem_rules_iff.mpr ⟨above, habove, rfl⟩, by omega⟩

/-- The header of a silenced rule is lost to a rule that reaches down to it, and to no other. -/
theorem findRule?_silenced_eq_none_iff (header : passes isHeader lines n = true) :
    findRule? (silenced lines n) n = none ↔ ∀ rule ∈ rules lines, rule.last + 1 ≠ n := by
  constructor
  · intro hnone rule hrule hlast
    obtain ⟨above, habove, rfl⟩ := mem_rules_iff.mp hrule
    rw [findRule?_silenced_of_reaching header habove hlast] at hnone
    cases hnone
  · intro hapart
    cases hfind : findRule? (silenced lines n) n with
    | none => rfl
    | some rule =>
      obtain ⟨above, hmem, hlast⟩ := last_of_findRule?_silenced header hfind
      exact absurd hlast (hapart above hmem)

/-- A rule above that takes the comment in is commented out itself, and the header once more. -/
theorem apply_comment_silenced_ne (header : passes isHeader lines n = true)
    (h : rule.contains n = true) :
    Plan.apply ⟨rule.contains, .comment⟩ (silenced lines n) ≠ lines := by
  intro heq
  have hself := contains_ruleAt_self lines n
  obtain ⟨line, hline, hblank⟩ := exists_of_contains header hself
  have hn : (Plan.apply ⟨rule.contains, .comment⟩ (silenced lines n))[n]? = lines[n]? := by
    rw [heq]
  rw [Plan.getElem?_apply_of_targets h, getElem?_silenced_of_contains hself, hline, Option.map_some,
    Option.map_some, Option.some_inj] at hn
  have hlength := congrArg (fun line => line.content.length) hn
  simp only [Direction.edit] at hlength
  rw [length_comment (by rwa [isBlank_comment]), length_comment hblank] at hlength
  omega

/-- Whether a line of a silenced rule, or of its neighbourhood, comes back when a range of lines is
uncommented. -/
theorem getElem?_uncomment_silenced_iff (header : passes isHeader lines n = true) :
    (Plan.apply ⟨rule.contains, .uncomment⟩ (silenced lines n))[m]? = lines[m]? ↔
      ((ruleAt lines n).contains m = true → rule.contains m = true) ∧
        ((ruleAt lines n).contains m = false → rule.contains m = true →
          passes isCommented lines m = false) := by
  cases hr : rule.contains m with
  | true =>
    rw [Plan.getElem?_apply_of_targets hr]
    cases hm : (ruleAt lines n).contains m with
    | true =>
      rw [getElem?_silenced_of_contains hm, Option.map_map]
      cases hline : lines[m]? with
      | none => simp
      | some line => simp [Direction.edit, uncomment_comment]
    | false =>
      rw [getElem?_silenced_of_not_contains hm]
      cases hline : lines[m]? with
      | none => simp [passes, content?, hline]
      | some line =>
        rw [passes_of_getElem? hline, Option.map_some, Option.some_inj, with_content_eq_iff]
        cases hc : isCommented line.content with
        | true => simpa [Direction.edit] using uncomment_ne hc
        | false => simpa [Direction.edit] using uncomment_of_not_isCommented hc
  | false =>
    rw [Plan.getElem?_apply_of_not_targets hr]
    cases hm : (ruleAt lines n).contains m with
    | true =>
      obtain ⟨line, hline, hblank⟩ := exists_of_contains header hm
      rw [getElem?_silenced_of_contains hm, hline, Option.map_some, Option.some_inj,
        with_content_eq_iff]
      simpa using comment_ne hblank
    | false => simp [getElem?_silenced_of_not_contains hm]

/-- The rule that a silenced header shows. -/
theorem commentedRule_silenced (header : passes isHeader lines n = true) :
    commentedRule (silenced lines n) n =
      ⟨n, n + (((silenced lines n).drop (n + 1)).takeWhile fun line =>
        isHanging line.content).length⟩ := by
  have hself := contains_ruleAt_self lines n
  obtain ⟨line, hline, hheader⟩ := passes_iff.mp header
  have hblank := isBlank_of_isHeader hheader
  have hcontent : (content? (silenced lines n) n).getD [] = comment line.content := by
    rw [content?, getElem?_silenced_of_contains hself, hline]
    rfl
  rw [commentedRule, hcontent, isCommented_comment hblank, uncomment_comment, hheader]
  rfl

theorem contains_commentedRule_silenced_iff (header : passes isHeader lines n = true) :
    (commentedRule (silenced lines n) n).contains m = true ↔
      n ≤ m ∧ ∀ i, n < i → i ≤ m → passes isHanging (silenced lines n) i = true := by
  rw [commentedRule_silenced header]
  exact contains_takeWhile_iff

theorem planRule_silenced (header : passes isHeader lines n = true)
    (hnone : findRule? (silenced lines n) n = none) :
    planRule (silenced lines n) n = ⟨(commentedRule (silenced lines n) n).contains, .uncomment⟩ := by
  have hself := contains_ruleAt_self lines n
  obtain ⟨line, hline, hblank⟩ := exists_of_contains header hself
  have hfirst : (content? (silenced lines n) (commentedRule (silenced lines n) n).first).getD [] =
      comment line.content := by
    rw [commentedRule_silenced header, content?, getElem?_silenced_of_contains hself, hline]
    rfl
  rw [planRule, hnone, Option.getD_none, hfirst, isCommented_comment hblank]
  rfl

/-- Within the rule the look of a silenced header goes as far as the lines are indented. -/
theorem contains_commentedRule_silenced_of_contains (header : passes isHeader lines n = true)
    (hm : (ruleAt lines n).contains m = true) :
    (commentedRule (silenced lines n) n).contains m = true ↔
      ∀ i, n < i → i ≤ m → passes isIndented lines i = true := by
  have hbounds := LineRange.contains_iff.mp hm
  have hsame : ∀ i, n < i → i ≤ m →
      passes isHanging (silenced lines n) i = passes isIndented lines i := by
    intro i hi him
    apply isHanging_silenced header
    exact LineRange.contains_iff.mpr ⟨Nat.le_of_lt hi, Nat.le_trans him hbounds.2⟩
  rw [contains_commentedRule_silenced_iff header]
  constructor
  · rintro ⟨_, h⟩ i hi him
    rw [← hsame i hi him]
    exact h i hi him
  · intro h
    refine ⟨hbounds.1, ?_⟩
    intro i hi him
    rw [hsame i hi him]
    exact h i hi him

/-- Past an indented rule the look goes as far as indented lines follow. -/
theorem contains_commentedRule_silenced_of_lt (header : passes isHeader lines n = true)
    (hindented : ∀ i, n < i → (ruleAt lines n).contains i = true → passes isIndented lines i = true)
    (hm : (ruleAt lines n).last < m) :
    (commentedRule (silenced lines n) n).contains m = true ↔
      ∀ i, (ruleAt lines n).last < i → i ≤ m → passes isHanging lines i = true := by
  have hn := (LineRange.contains_iff.mp (contains_ruleAt_last lines n)).1
  have hfirst : (ruleAt lines n).first = n := rfl
  rw [contains_commentedRule_silenced_iff header]
  constructor
  · rintro ⟨_, h⟩ i hi him
    rw [← passes_silenced_of_not_contains (LineRange.contains_eq_false_iff.mpr (.inr hi))]
    exact h i (by omega) him
  · intro h
    refine ⟨by omega, ?_⟩
    intro i hi him
    cases hcontains : (ruleAt lines n).contains i with
    | true =>
      rw [isHanging_silenced header hcontains]
      exact hindented i hi hcontains
    | false =>
      have hout := LineRange.contains_eq_false_iff.mp hcontains
      rw [passes_silenced_of_not_contains hcontains]
      exact h i (hout.resolve_left (Nat.not_lt_of_lt hi)) him

/-- Where nothing above takes the header in, the lines come back if those found by their look are those
of the rule, up to lines without a comment sign. -/
theorem apply_uncomment_silenced_iff (header : passes isHeader lines n = true) :
    Plan.apply ⟨(commentedRule (silenced lines n) n).contains, .uncomment⟩ (silenced lines n) = lines ↔
      (∀ m, n < m → (ruleAt lines n).contains m = true → passes isIndented lines m = true) ∧
        ∀ m, (ruleAt lines n).last < m →
          (∀ i, (ruleAt lines n).last < i → i ≤ m → passes isHanging lines i = true) →
          passes isCommented lines m = false := by
  rw [List.ext_getElem?_iff]
  simp only [getElem?_uncomment_silenced_iff header]
  constructor
  · intro h
    have hindented : ∀ m, n < m → (ruleAt lines n).contains m = true →
        passes isIndented lines m = true := by
      intro m hn hm
      have hlook := (contains_commentedRule_silenced_of_contains header hm).mp ((h m).1 hm)
      exact hlook m hn (Nat.le_refl m)
    refine ⟨hindented, ?_⟩
    intro m hlast hhanging
    have hlook := (contains_commentedRule_silenced_of_lt header hindented hlast).mpr hhanging
    exact (h m).2 (LineRange.contains_eq_false_iff.mpr (.inr hlast)) hlook
  · rintro ⟨hindented, huncommented⟩ m
    constructor
    · intro hm
      have hbounds := LineRange.contains_iff.mp hm
      apply (contains_commentedRule_silenced_of_contains header hm).mpr
      intro i hi him
      exact hindented i hi (LineRange.contains_iff.mpr ⟨Nat.le_of_lt hi, Nat.le_trans him hbounds.2⟩)
    · intro hm hlook
      have hn := ((contains_commentedRule_silenced_iff header).mp hlook).1
      have hlast : (ruleAt lines n).last < m :=
        (LineRange.contains_eq_false_iff.mp hm).resolve_left (Nat.not_lt_of_le hn)
      exact huncommented m hlast
        ((contains_commentedRule_silenced_of_lt header hindented hlast).mp hlook)

theorem apply_planRule_silenced_iff (header : passes isHeader lines n = true) :
    (planRule (silenced lines n) n).apply (silenced lines n) = lines ↔ Restorable lines n := by
  cases hfind : findRule? (silenced lines n) n with
  | some rule =>
    rw [planRule_of_findRule? hfind]
    constructor
    · intro heq
      exact absurd heq (apply_comment_silenced_ne header (findRule?_eq_some_iff.mp hfind).2)
    · intro h
      rw [(findRule?_silenced_eq_none_iff header).mpr h.apart] at hfind
      cases hfind
  | none =>
    rw [planRule_silenced header hfind, apply_uncomment_silenced_iff header]
    constructor
    · rintro ⟨hindented, huncommented⟩
      exact ⟨(findRule?_silenced_eq_none_iff header).mp hfind, hindented, huncommented⟩
    · intro h
      exact ⟨h.indented, h.uncommented⟩

/-- A sign put on a line does not change how it ends. -/
theorem settle_of_mem_silenced {line : Line} (h : line ∈ silenced (ofText source) n) :
    line.settle = line := by
  obtain ⟨m, hm⟩ := List.getElem?_of_mem h
  cases hcontains : (ruleAt (ofText source) n).contains m with
  | true =>
    rw [getElem?_silenced_of_contains hcontains] at hm
    obtain ⟨old, hold, rfl⟩ := Option.map_eq_some_iff.mp hm
    have hsettled := settle_eq_self_iff.mp (settle_of_mem_ofText (List.mem_of_getElem? hold))
    rw [settle_eq_self_iff, getLast?_comment]
    exact hsettled
  | false =>
    rw [getElem?_silenced_of_not_contains hcontains] at hm
    exact settle_of_mem_ofText (List.mem_of_getElem? hm)

theorem joinable_silenced (source : List Char) (n : Nat) :
    Joinable (silenced (ofText source) n) :=
  Plan.joinable_apply _ (joinable_ofText source)

theorem ofText_join_silenced (source : List Char) (n : Nat) :
    ofText (join (silenced (ofText source) n)) = silenced (ofText source) n := by
  rw [ofText_join (joinable_silenced source n)]
  exact (List.map_congr_left fun _ => settle_of_mem_silenced).trans (List.map_id _)

theorem apply_rule (h : n < (ofText source).length) :
    apply source (.rule n) = .ok (join ((planRule (ofText source) n).apply (ofText source))) := by
  refine apply_eq_ok_iff.mpr ⟨?_, rfl⟩
  rw [missing?_eq_none_iff]
  simpa [Request.named] using h

/-- From each of its lines a rule is commented out as a whole. -/
theorem apply_rule_of_findRule? (h : findRule? (ofText source) m = some (ruleAt (ofText source) n)) :
    apply source (.rule m) = .ok (join (silenced (ofText source) n)) := by
  obtain ⟨header, hheader, hrule, hcontains⟩ := findRule?_eq_some_iff_header.mp h
  rw [hrule] at hcontains
  rw [apply_rule (lt_length_of_contains hheader hcontains), planRule_of_findRule? h, silenced]

/-- From whichever of its lines a rule is toggled, the text that comes of it is one and the same. Each line
of the rule is a comment in it and keeps its end, and the sign taken off again it is the line it was, whether
or not it was a comment before. All other lines stay as they are. -/
theorem rule_commented_out (source : List Char) (n : Nat) (rule : LineRange)
    (h : findRule? (ofText source) n = some rule) :
    ∃ result, (∀ m, rule.contains m = true → apply source (.rule m) = .ok result) ∧
      (ofText result).length = (ofText source).length ∧
      (∀ m, rule.contains m = true → ∃ line, (ofText source)[m]? = some line ∧
        (ofText result)[m]? = some ⟨comment line.content, line.terminator⟩ ∧
        isCommented (comment line.content) = true ∧
        uncomment (comment line.content) = line.content) ∧
      ∀ m, rule.contains m = false → (ofText result)[m]? = (ofText source)[m]? := by
  obtain ⟨header, hheader, rfl, _⟩ := findRule?_eq_some_iff_header.mp h
  refine ⟨join (silenced (ofText source) header), ?_, ?_, ?_, ?_⟩
  · intro m hm
    exact apply_rule_of_findRule? (findRule?_eq_some_iff_header.mpr ⟨header, hheader, rfl, hm⟩)
  · rw [ofText_join_silenced, silenced, Plan.length_apply]
  · intro m hm
    obtain ⟨line, hline, hblank⟩ := exists_of_contains hheader hm
    refine ⟨line, hline, ?_, isCommented_comment hblank, uncomment_comment line.content⟩
    rw [ofText_join_silenced, getElem?_silenced_of_contains hm, hline]
    rfl
  · intro m hm
    rw [ofText_join_silenced, getElem?_silenced_of_not_contains hm]

/-- A rule with a comment at the margin, and one whose end is a carriage return and a newline. -/
theorem rule_with_comments_commented_out :
    findRule? (ofText "a:\r\n#b\n  # c\n\nd".toList) 2 = some ⟨0, 2⟩ ∧
      ∃ result, apply "a:\r\n#b\n  # c\n\nd".toList (.rule 0) = .ok result ∧
        apply "a:\r\n#b\n  # c\n\nd".toList (.rule 1) = .ok result ∧
        (ofText result)[1]? = some ⟨"# #b".toList, .lf⟩ ∧
        (ofText result)[4]? = some ⟨['d'], .none⟩ := by
  have hfind : findRule? (ofText "a:\r\n#b\n  # c\n\nd".toList) 2 = some ⟨0, 2⟩ := by
    decide +kernel
  obtain ⟨result, happly, _, hinside, houtside⟩ := rule_commented_out _ 2 _ hfind
  obtain ⟨line, hline, hresult, _⟩ := hinside 1 (by decide)
  have hsource : (ofText "a:\r\n#b\n  # c\n\nd".toList)[1]? = some ⟨"#b".toList, .lf⟩ := by
    decide +kernel
  rw [hsource] at hline
  cases hline
  refine ⟨hfind, result, happly 0 (by decide), happly 1 (by decide), ?_, ?_⟩
  · rw [hresult]
    decide +kernel
  · rw [houtside 4 (by decide)]
    decide +kernel

/-- From a header the whole rule can be toggled twice, and the text comes back exactly if no rule above
reaches down to the header, the body has no comment at the margin, and the indented lines that follow the
rule without a gap have no comment among them. -/
theorem rule_toggled_twice (source : List Char) (n : Nat)
    (header : passes isHeader (ofText source) n = true) :
    ∃ once twice, apply source (.rule n) = .ok once ∧ apply once (.rule n) = .ok twice ∧
      (twice = source ↔ Restorable (ofText source) n) := by
  have hn := lt_length_of_passes header
  have honce := ofText_join_silenced source n
  have hlength : n < (ofText (join (silenced (ofText source) n))).length := by
    rwa [honce, silenced, Plan.length_apply]
  have hfirst := apply_rule hn
  have hsecond := apply_rule hlength
  rw [planRule_of_isHeader header] at hfirst
  rw [honce] at hsecond
  refine ⟨_, _, hfirst, hsecond, ?_⟩
  have hterminators : ((planRule (silenced (ofText source) n) n).apply
      (silenced (ofText source) n)).map terminator = (ofText source).map terminator := by
    rw [Plan.map_terminator_apply, silenced, Plan.map_terminator_apply]
  rw [← apply_planRule_silenced_iff header, ← join_eq_iff
    (Plan.joinable_apply _ (joinable_silenced source n)) (joinable_ofText source) hterminators,
    join_ofText]

/-- A comment of the body that is indented comes back with its rule. -/
theorem rule_with_comment_restored :
    passes isHeader (ofText "a:\n  #b\n  c\n".toList) 0 = true ∧
      ∃ once, apply "a:\n  #b\n  c\n".toList (.rule 0) = .ok once ∧
        apply once (.rule 0) = .ok "a:\n  #b\n  c\n".toList := by
  let source := "a:\n  #b\n  c\n".toList
  have header : passes isHeader (ofText source) 0 = true := by decide +kernel
  obtain ⟨once, twice, honce, htwice, hiff⟩ := rule_toggled_twice source 0 header
  have hlast : (ruleAt (ofText source) 0).last = 2 := by decide +kernel
  have hrestorable : Restorable (ofText source) 0 := by
    refine ⟨?_, ?_, ?_⟩
    · intro rule _
      exact Nat.succ_ne_zero _
    · intro m hm hcontains
      have hle := (LineRange.contains_iff.mp hcontains).2
      rw [hlast] at hle
      have hcases : m = 1 ∨ m = 2 := by omega
      rcases hcases with rfl | rfl <;> decide +kernel
    · intro m hm hhanging
      rw [hlast] at hm hhanging
      have hempty : passes isHanging (ofText source) 3 = false := by decide +kernel
      rw [hhanging 3 (by omega) hm] at hempty
      cases hempty
  rw [hiff.mpr hrestorable] at htwice
  exact ⟨header, once, honce, htwice⟩

/-- A rule does not come back if one above takes its comment in, if it has a comment at the margin, or if
an indented rule with a comment follows it. -/
theorem rule_not_restored :
    (passes isHeader (ofText "a:\nb:".toList) 1 = true ∧
      apply "a:\nb:".toList (.rule 1) = .ok "a:\n# b:".toList ∧
      apply "a:\n# b:".toList (.rule 1) = .ok "# a:\n# # b:".toList) ∧
    (passes isHeader (ofText "a:\n#b".toList) 0 = true ∧
      apply "a:\n#b".toList (.rule 0) = .ok "# a:\n# #b".toList ∧
      apply "# a:\n# #b".toList (.rule 0) = .ok "a:\n# #b".toList) ∧
    (passes isHeader (ofText "a:\n b:\n #c".toList) 0 = true ∧
      apply "a:\n b:\n #c".toList (.rule 0) = .ok "# a:\n b:\n #c".toList ∧
      apply "# a:\n b:\n #c".toList (.rule 0) = .ok "a:\n b:\n c".toList) := by
  decide +kernel

end Comment

end VoiceScript
