import VoiceScript.Proofs.Untouched

namespace VoiceScript

namespace Line

theorem join_congr {lines lines' : List Line} (h : lines.map text = lines'.map text) :
    join lines = join lines' := by
  rw [join, join, List.flatMap_def, h, ← List.flatMap_def]

end Line

namespace Comment

open Line

variable {source : List Char} {lines : List Line} {targets targets' : Nat → Bool}
  {direction : Direction} {plan : Plan} {ns order : List Nat} {a b n : Nat}

theorem Plan.apply_of_no_targets (h : ∀ n, plan.targets n = false) (lines : List Line) :
    plan.apply lines = lines := by
  apply List.ext_getElem?
  intro n
  exact getElem?_apply_of_not_targets (h n) lines

/-- Edits of one kind on lines that are not the same can be made together. -/
theorem Plan.apply_apply (hapart : ∀ n, targets' n = true → targets n = false) (lines : List Line) :
    Plan.apply ⟨targets', direction⟩ (Plan.apply ⟨targets, direction⟩ lines) =
      Plan.apply ⟨fun n => targets n || targets' n, direction⟩ lines := by
  simp only [Plan.apply, List.mapIdx_mapIdx]
  congr 1
  funext n line
  cases h' : targets' n with
  | true => simp [hapart n h']
  | false => simp

/-- How the end of a line is told from its content matters to the edits of that line alone. -/
theorem Plan.join_apply_map_settle
    (h : ∀ n line, plan.targets n = true → lines[n]? = some line → line.settle = line) :
    join (plan.apply (lines.map settle)) = join (plan.apply lines) := by
  apply join_congr
  apply List.ext_getElem?
  intro n
  rw [List.getElem?_map, List.getElem?_map]
  cases hn : plan.targets n with
  | true =>
    rw [getElem?_apply_of_targets hn, getElem?_apply_of_targets hn, List.getElem?_map]
    cases hline : lines[n]? with
    | none => rfl
    | some line => rw [Option.map_some, h n line hn hline]
  | false =>
    rw [getElem?_apply_of_not_targets hn, getElem?_apply_of_not_targets hn, List.getElem?_map]
    cases hline : lines[n]? with
    | none => rfl
    | some line => rw [Option.map_some, Option.map_some, Option.map_some, text_settle]

/-- A text with some of its lines toggled. -/
def toggled (source : List Char) (targets : Nat → Bool) : List Char :=
  join (Plan.apply ⟨targets, .toggle⟩ (ofText source))

theorem toggled_of_no_targets (source : List Char) : toggled source (fun _ => false) = source := by
  rw [toggled, Plan.apply_of_no_targets fun _ => rfl, join_ofText]

theorem ofText_toggled (source : List Char) (targets : Nat → Bool) :
    ofText (toggled source targets) =
      (Plan.apply ⟨targets, .toggle⟩ (ofText source)).map settle :=
  ofText_join (Plan.joinable_apply _ (joinable_ofText source))

/-- One more line toggled, in a text where it was not yet. -/
theorem apply_line_toggled (hn : n < (ofText source).length) (h : targets n = false) :
    apply (toggled source targets) (.line n) =
      .ok (toggled source fun m => targets m || m == n) := by
  apply apply_eq_ok_iff.mpr
  rw [ofText_toggled, List.length_map, Plan.length_apply, missing?_eq_none_iff]
  refine ⟨by simpa [Request.named] using hn, ?_⟩
  rw [plan, Plan.join_apply_map_settle, Plan.apply_apply, toggled]
  · intro m hm
    rwa [beq_iff_eq.mp hm]
  · intro m line hm hline
    rw [beq_iff_eq.mp hm, Plan.getElem?_apply_of_not_targets h] at hline
    exact settle_of_mem_ofText (List.mem_of_getElem? hline)

/-- Lines toggled one after the other, each of them once. -/
theorem foldlM_apply_line (hnodup : order.Nodup) (hlt : ∀ n ∈ order, n < (ofText source).length)
    (h : ∀ n ∈ order, targets n = false) :
    order.foldlM (fun text n => apply text (.line n)) (toggled source targets) =
      .ok (toggled source fun m => targets m || order.contains m) := by
  induction order generalizing targets with
  | nil => simp [pure, Except.pure]
  | cons n order ih =>
    obtain ⟨hn, hnodup⟩ := List.nodup_cons.mp hnodup
    have hnext : ∀ m ∈ order, (targets m || m == n) = false := by
      intro m hm
      have hne : m ≠ n := fun heq => hn (heq ▸ hm)
      simp [h m (List.mem_cons_of_mem _ hm), hne]
    rw [List.foldlM_cons, apply_line_toggled (hlt n List.mem_cons_self) (h n List.mem_cons_self)]
    refine (ih hnodup (fun m hm => hlt m (List.mem_cons_of_mem _ hm)) hnext).trans ?_
    congr 2
    funext m
    rw [List.contains_cons, Bool.or_assoc]

theorem apply_of_plan {request : Request} (hplan : Comment.plan (ofText source) request = ⟨targets, .toggle⟩)
    (hn : ∀ n ∈ request.named, n < (ofText source).length) :
    apply source request = .ok (toggled source targets) := by
  rw [apply_eq_ok_iff, hplan]
  exact ⟨missing?_eq_none_iff.mpr hn, rfl⟩

theorem apply_carets (h : ∀ n ∈ ns, n < (ofText source).length) :
    apply source (.carets ns) = .ok (toggled source ns.contains) :=
  apply_of_plan rfl h

theorem contains_eq_of_mem_iff (h : ∀ n, n ∈ order ↔ n ∈ ns) : order.contains = ns.contains := by
  funext n
  rw [Bool.eq_iff_iff, List.contains_iff_mem, List.contains_iff_mem, h]

/-- A selection is a caret on each line between its bounds. -/
theorem apply_selection (ha : a < (ofText source).length) (hb : b < (ofText source).length)
    (h : ∀ n, n ∈ ns ↔ min a b ≤ n ∧ n ≤ max a b) :
    apply source (.selection a b) = apply source (.carets ns) := by
  have hns : ∀ n ∈ ns, n < (ofText source).length := by
    intro n hn
    have hle := (h n).mp hn
    omega
  have htargets : (⟨min a b, max a b⟩ : LineRange).contains = ns.contains := by
    funext n
    rw [Bool.eq_iff_iff, LineRange.contains_iff, List.contains_iff_mem, h]
  have hnamed : ∀ n ∈ (Request.selection a b).named, n < (ofText source).length := by
    simp only [Request.named, List.mem_singleton]
    omega
  rw [apply_carets hns, apply_of_plan rfl hnamed, ← htargets]

/-- Carets are a set of edits. In whichever way their lines are listed, once or more than once, the text comes
out the same, and it is the text that the lines toggled one by one come to, in any order. A selection is a
caret on each line between its bounds, whichever of them is given first. -/
theorem carets_line_by_line (source : List Char) :
    (∀ ns : List Nat, (∀ n ∈ ns, n < (ofText source).length) →
      ∃ result, apply source (.carets ns) = .ok result ∧
        (∀ ns' : List Nat, (∀ n, n ∈ ns' ↔ n ∈ ns) → apply source (.carets ns') = .ok result) ∧
        ∀ order : List Nat, order.Nodup → (∀ n, n ∈ order ↔ n ∈ ns) →
          order.foldlM (fun text n => apply text (.line n)) source = .ok result) ∧
    ∀ a b, a < (ofText source).length → b < (ofText source).length →
      ∀ between : List Nat, (∀ n, n ∈ between ↔ min a b ≤ n ∧ n ≤ max a b) →
        apply source (.selection a b) = apply source (.carets between) ∧
          apply source (.selection b a) = apply source (.carets between) := by
  constructor
  · intro ns hns
    refine ⟨_, apply_carets hns, ?_, ?_⟩
    · intro ns' h
      rw [apply_carets fun n hn => hns n ((h n).mp hn), contains_eq_of_mem_iff h]
    · intro order hnodup h
      have hlt : ∀ n ∈ order, n < (ofText source).length := fun n hn => hns n ((h n).mp hn)
      have hrun : order.foldlM (fun text n => apply text (.line n)) (toggled source fun _ => false) =
          .ok (toggled source fun m => false || order.contains m) :=
        foldlM_apply_line hnodup hlt fun _ _ => rfl
      rw [toggled_of_no_targets] at hrun
      simp only [Bool.false_or] at hrun
      rw [hrun, ← contains_eq_of_mem_iff h]
  · intro a b ha hb between h
    refine ⟨apply_selection ha hb h, apply_selection hb ha ?_⟩
    rwa [Nat.min_comm, Nat.max_comm]

/-- The carriage return that is left of the first line goes over to its end, and the line below does not
change for it. -/
example : apply "\r#\nb".toList (.selection 1 0) = .ok "\r\n# b".toList ∧
    ofText "\r\n# b".toList = [⟨[], .crlf⟩, ⟨"# b".toList, .none⟩] := by
  decide +kernel

end Comment

end VoiceScript
