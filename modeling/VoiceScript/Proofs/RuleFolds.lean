import VoiceScript.Proofs.Folds
import VoiceScript.Proofs.Lines
import VoiceScript.Proofs.Rules

namespace VoiceScript

namespace Line

variable {line : Line} {lines : List Line} {n m d e : Nat}

theorem byteLength_content_lt (h : line.terminator ≠ .none) :
    Text.byteLength line.content < Text.byteLength line.text := by
  have hend : line.terminator.text ≠ [] := by
    cases ht : line.terminator with
    | none => exact absurd ht h
    | lf => exact List.cons_ne_nil _ _
    | crlf => exact List.cons_ne_nil _ _
  have := Text.byteLength_pos hend
  rw [text, Text.byteLength_append]
  omega

/-- The content of a line ends in that line, though it is empty or the last one. -/
theorem ofOffset_contentEnd (h : Joinable lines) (he : contentEnd? lines n = some e) :
    ofOffset lines e = n := by
  induction h generalizing n e with
  | last hn =>
    cases n with
    | zero => rfl
    | succ n => cases he
  | @cons line lines hn ht rest ih =>
    rw [ofOffset_cons rest.ne_nil]
    cases n with
    | zero =>
      rw [contentEnd?_zero] at he
      cases he
      rw [if_neg (Nat.not_le_of_lt (byteLength_content_lt ht))]
    | succ n =>
      rw [contentEnd?_succ] at he
      obtain ⟨d, hd, rfl⟩ := Option.map_eq_some_iff.mp he
      rw [if_pos (Nat.le_add_right _ _), Nat.add_sub_cancel_left, ih hd]

/-- A content further down ends strictly further on. -/
theorem contentEnd_lt (h : Joinable lines) (hd : contentEnd? lines n = some d)
    (he : contentEnd? lines m = some e) (hlt : n < m) : d < e := by
  apply Nat.lt_of_le_of_ne (contentEnd_mono hd he (Nat.le_of_lt hlt))
  intro heq
  have hline := ofOffset_contentEnd h hd
  rw [heq, ofOffset_contentEnd h he] at hline
  omega

end Line

namespace Fold

open Line

variable {lines : List Line} {rule : LineRange} {fold : Fold} {rules : List LineRange}

/-- The lines that a fold starts and ends in. -/
def lineRange (lines : List Line) (fold : Fold) : LineRange :=
  ⟨ofOffset lines fold.span.start, ofOffset lines fold.span.stop⟩

/-- A fold from the end of the content of one line to that of another one further down. -/
structure FromLineToLine (lines : List Line) (fold : Fold) : Prop where
  start : contentEnd? lines (fold.lineRange lines).first = some fold.span.start
  stop : contentEnd? lines (fold.lineRange lines).last = some fold.span.stop
  filled : fold.span.start < fold.span.stop
  placeholder : fold.placeholder = .body

/-- A rule of more than one line has a fold, and its lines are those of the rule. -/
theorem exists_ofRule? (h : Joinable lines) (hlt : rule.first < rule.last)
    (hlast : rule.last < lines.length) :
    ∃ fold, ofRule? lines rule = some fold ∧ fold.lineRange lines = rule ∧
      fold.FromLineToLine lines := by
  obtain ⟨d, hd⟩ := exists_contentEnd? (Nat.lt_trans hlt hlast)
  obtain ⟨e, he⟩ := exists_contentEnd? hlast
  have hfilled := contentEnd_lt h hd he hlt
  have hlines : lineRange lines ⟨⟨d, e⟩, .body⟩ = rule := by
    rw [lineRange, ofOffset_contentEnd h hd, ofOffset_contentEnd h he]
  refine ⟨⟨⟨d, e⟩, .body⟩, ?_, hlines, ?_, ?_, hfilled, rfl⟩
  · have hsingle : rule.isSingle = false := beq_false_of_ne (Nat.ne_of_lt hlt)
    simp only [ofRule?, hsingle, hd, he]
    exact between?_eq_some_iff.mpr ⟨hfilled, rfl⟩
  · rw [hlines, hd]
  · rw [hlines, he]

theorem ofRule?_of_le (hle : rule.first ≤ rule.last) (h : ¬ rule.first < rule.last) :
    ofRule? lines rule = none := by
  have hsingle : rule.isSingle = true := beq_iff_eq.mpr (by omega)
  rw [ofRule?, hsingle]
  rfl

/-- The folds of rules are those of the rules of more than one line. -/
theorem map_lineRange_filterMap (h : Joinable lines)
    (hbounds : ∀ rule ∈ rules, rule.first ≤ rule.last ∧ rule.last < lines.length) :
    (rules.filterMap (ofRule? lines)).map (lineRange lines) =
      rules.filter fun rule => rule.first < rule.last := by
  induction rules with
  | nil => rfl
  | cons rule rules ih =>
    obtain ⟨⟨hle, hlast⟩, hrest⟩ := List.forall_mem_cons.mp hbounds
    by_cases hlt : rule.first < rule.last
    · obtain ⟨fold, hfold, hlines, _⟩ := exists_ofRule? h hlt hlast
      rw [List.filterMap_cons_some hfold, List.map_cons, hlines, ih hrest,
        List.filter_cons_of_pos (by simpa using hlt)]
    · rw [List.filterMap_cons_none (ofRule?_of_le hle hlt), ih hrest,
        List.filter_cons_of_neg (by simpa using hlt)]

/-- Folds whose lines are apart are apart. -/
theorem FromLineToLine.stop_lt_start {a b : Fold} (h : Joinable lines) (ha : a.FromLineToLine lines)
    (hb : b.FromLineToLine lines) (hlt : (a.lineRange lines).last < (b.lineRange lines).first) :
    a.span.stop < b.span.start :=
  contentEnd_lt h ha.stop hb.start hlt

/-- The folds by the look of the lines of a text start and end in the first and the last lines of its rules of
more than one line, one after the other, each at the end of the content of its line. They are not empty and
stand apart, in the order of the text, and a line is in such a rule just where it is between the lines of a
fold. -/
theorem folds_of_rules (source : List Char) :
    (ofLines source).map (lineRange (ofText source)) =
        (Outline.rules (ofText source)).filter (fun rule => rule.first < rule.last) ∧
      (∀ fold ∈ ofLines source, fold.FromLineToLine (ofText source)) ∧
      (ofLines source).Pairwise (fun a b => a.span.stop < b.span.start) ∧
      ∀ n, (∃ rule ∈ Outline.rules (ofText source), rule.first < rule.last ∧ rule.contains n = true) ↔
        ∃ fold ∈ ofLines source, (fold.lineRange (ofText source)).contains n = true := by
  have hjoinable := joinable_ofText source
  have hbounds : ∀ rule ∈ Outline.rules (ofText source),
      rule.first ≤ rule.last ∧ rule.last < (ofText source).length := by
    intro rule hrule
    obtain ⟨header, hheader, rfl⟩ := Outline.mem_rules_iff.mp hrule
    exact ⟨Nat.le_add_right _ _,
      Outline.lt_length_of_contains hheader (Outline.contains_ruleAt_last _ header)⟩
  have hmap := map_lineRange_filterMap hjoinable hbounds
  have hfolds : ∀ fold ∈ ofLines source, fold.FromLineToLine (ofText source) := by
    intro fold hfold
    obtain ⟨rule, hrule, hfold⟩ := List.mem_filterMap.mp hfold
    obtain ⟨hle, hlast⟩ := hbounds rule hrule
    by_cases hlt : rule.first < rule.last
    · obtain ⟨found, hfound, _, hends⟩ := exists_ofRule? hjoinable hlt hlast
      rw [hfound] at hfold
      cases hfold
      exact hends
    · rw [ofRule?_of_le hle hlt] at hfold
      cases hfold
  refine ⟨hmap, hfolds, ?_, ?_⟩
  · have hapart := (Outline.rules_apart (ofText source)).sublist
      (List.filter_sublist (p := fun rule => rule.first < rule.last))
    rw [← hmap, List.pairwise_map] at hapart
    apply hapart.imp_of_mem
    intro a b ha hb hlt
    exact (hfolds a ha).stop_lt_start hjoinable (hfolds b hb) hlt
  · intro n
    have hmem : ∀ rule, rule ∈ (ofLines source).map (lineRange (ofText source)) ↔
        rule ∈ Outline.rules (ofText source) ∧ rule.first < rule.last := by
      intro rule
      rw [ofLines, hmap, List.mem_filter, decide_eq_true_eq]
    constructor
    · rintro ⟨rule, hrule, hlt, hn⟩
      obtain ⟨fold, hfold, rfl⟩ := List.mem_map.mp ((hmem rule).mpr ⟨hrule, hlt⟩)
      exact ⟨fold, hfold, hn⟩
    · rintro ⟨fold, hfold, hn⟩
      obtain ⟨hrule, hlt⟩ := (hmem _).mp (List.mem_map_of_mem hfold)
      exact ⟨_, hrule, hlt, hn⟩

/-- A rule of one line has no fold, and the end of a line that a fold ends at does not count the carriage
return. -/
example : ofLines "a:\n\nb:\n\t1\r\n 2\r\nc:".toList = [⟨⟨6, 13⟩, .body⟩] := by
  decide +kernel

end Fold

end VoiceScript
