import VoiceScript.Comment

namespace VoiceScript.Comment

/-- The lines that a request edits as a set, all of them in one direction. -/
structure Plan where
  targets : Nat → Bool
  direction : Direction

/-- The rule around a line, all of it the way that its first line goes. -/
def planRule (lines : List Line) (n : Nat) : Plan :=
  let rule := (Outline.findRule? lines n).getD (commentedRule lines n)
  let first := (Line.content? lines rule.first).getD []
  ⟨rule.contains, if Outline.isCommented first then .uncomment else .comment⟩

/-- The first of the lines a request names that the text does not have. -/
def missing? (lineCount : Nat) : Request → Option Nat
  | .line n | .rule n | .smart n => if n < lineCount then none else some n
  | .carets ns => (ns.filter fun n => lineCount ≤ n).min?
  | .selection a b => if max a b < lineCount then none else some (max a b)

/-- What a request means for a text. -/
def plan (lines : List Line) : Request → Plan
  | .line n => ⟨(· == n), .toggle⟩
  | .carets ns => ⟨ns.contains, .toggle⟩
  | .selection a b => ⟨(⟨min a b, max a b⟩ : LineRange).contains, .toggle⟩
  | .rule n => planRule lines n
  | .smart n =>
    if Outline.isHeader ((Line.content? lines n).getD []) then planRule lines n
    else ⟨(· == n), .toggle⟩

/-- Edits the lines of a plan. -/
def Plan.apply (plan : Plan) (lines : List Line) : List Line :=
  lines.mapIdx fun n line =>
    if plan.targets n then { line with content := plan.direction.edit line.content } else line

/-- The lines that a request names. Of a selection it is the one further down that has to be there. -/
def Request.named : Request → List Nat
  | .line n | .rule n | .smart n => [n]
  | .carets ns => ns
  | .selection a b => [max a b]

/-- Edits that come to a plan: one for each of its lines, in their order. -/
inductive Plan.Lists (plan : Plan) : List Edit → Prop
  | mk (ns : List Nat) (ascending : ns.Pairwise (· < ·)) (mem : ∀ n, n ∈ ns ↔ plan.targets n = true) :
      Lists plan (ns.map fun n => ⟨n, plan.direction⟩)

variable {lines : List Line} {ns : List Nat} {n m lineCount : Nat} {request : Request}
  {direction : Direction}

theorem missing?_eq_none_iff :
    missing? lineCount request = none ↔ ∀ n ∈ request.named, n < lineCount := by
  cases request with
  | line n | rule n | smart n => simp [missing?, Request.named]
  | selection a b => simp [missing?, Request.named]
  | carets ns =>
    rw [missing?, List.min?_eq_none_iff, List.filter_eq_nil_iff]
    simp [Request.named]

/-- The line that is reported is the first of the named lines that are not there. -/
theorem missing?_eq_some_iff :
    missing? lineCount request = some n ↔
      n ∈ request.named ∧ lineCount ≤ n ∧ ∀ m ∈ request.named, lineCount ≤ m → n ≤ m := by
  have hsingle : ∀ k, (if k < lineCount then none else some k) = some n ↔
      n ∈ [k] ∧ lineCount ≤ n ∧ ∀ m ∈ [k], lineCount ≤ m → n ≤ m := by
    intro k
    rw [Option.ite_none_left_eq_some]
    constructor
    · rintro ⟨hk, hn⟩
      cases hn
      simp [Nat.le_of_not_lt hk]
    · rintro ⟨hn, hk, _⟩
      cases List.mem_singleton.mp hn
      exact ⟨Nat.not_lt_of_le hk, rfl⟩
  cases request with
  | line k | rule k | smart k => exact hsingle k
  | selection a b => exact hsingle (max a b)
  | carets ns =>
    rw [missing?, List.min?_eq_some_iff]
    simp [Request.named, and_assoc]

theorem mem_eraseRepsBy_loop (n m : Nat) (ns acc : List Nat) :
    m ∈ List.eraseRepsBy.loop (· == ·) n ns acc ↔ m ∈ acc ∨ m = n ∨ m ∈ ns := by
  induction ns generalizing n acc with
  | nil => simp [List.eraseRepsBy.loop, or_comm]
  | cons k ns ih =>
    unfold List.eraseRepsBy.loop
    split
    · rename_i heq
      simp [ih, eq_of_beq heq]
    · simp [ih, or_assoc, or_left_comm]

theorem eraseRepsBy_loop_eq (n : Nat) (ns acc : List Nat) :
    List.eraseRepsBy.loop (· == ·) n ns acc =
      acc.reverse ++ List.eraseRepsBy.loop (· == ·) n ns [] := by
  induction ns generalizing n acc with
  | nil => simp [List.eraseRepsBy.loop]
  | cons k ns ih =>
    unfold List.eraseRepsBy.loop
    split
    · exact ih n acc
    · rw [ih k (n :: acc), ih k [n]]
      simp

theorem pairwise_eraseRepsBy_loop (h : (n :: ns).Pairwise (· ≤ ·)) :
    (List.eraseRepsBy.loop (· == ·) n ns []).Pairwise (· < ·) := by
  induction ns generalizing n with
  | nil => simp [List.eraseRepsBy.loop]
  | cons k ns ih =>
    obtain ⟨hn, hk⟩ := List.pairwise_cons.mp h
    unfold List.eraseRepsBy.loop
    split
    · rename_i heq
      cases eq_of_beq heq
      exact ih hk
    · rename_i hne
      rw [eraseRepsBy_loop_eq, List.reverse_singleton, List.singleton_append]
      refine List.pairwise_cons.mpr ⟨?_, ih hk⟩
      intro m hm
      have hnk : n ≠ k := by simpa using hne
      have hlt : n < k := Nat.lt_of_le_of_ne (hn k List.mem_cons_self) hnk
      simp only [mem_eraseRepsBy_loop, List.not_mem_nil, false_or] at hm
      rcases hm with rfl | hm
      · exact hlt
      · exact Nat.lt_of_lt_of_le hlt ((List.pairwise_cons.mp hk).1 m hm)

theorem mem_sorted_eraseReps (ns : List Nat) : n ∈ ns.mergeSort.eraseReps ↔ n ∈ ns := by
  have hmem : n ∈ ns.mergeSort ↔ n ∈ ns := List.mem_mergeSort
  rw [← hmem]
  cases ns.mergeSort with
  | nil => simp [List.eraseReps, List.eraseRepsBy]
  | cons k ks => simp [List.eraseReps, List.eraseRepsBy, mem_eraseRepsBy_loop]

/-- Sorting makes the repeats of a line neighbours, so each line is left once. -/
theorem pairwise_sorted_eraseReps (ns : List Nat) : ns.mergeSort.eraseReps.Pairwise (· < ·) := by
  have hsorted : ns.mergeSort.Pairwise fun a b => decide (a ≤ b) = true :=
    List.pairwise_mergeSort (by simp; omega) (by simp; omega) ns
  cases hns : ns.mergeSort with
  | nil => simp [List.eraseReps, List.eraseRepsBy]
  | cons k ks =>
    rw [hns] at hsorted
    exact pairwise_eraseRepsBy_loop (hsorted.imp of_decide_eq_true)

theorem pairwise_lines (r : LineRange) : r.lines.Pairwise (· < ·) :=
  List.pairwise_lt_range'

theorem mem_lines_iff (r : LineRange) : n ∈ r.lines ↔ r.contains n = true := by
  simp only [LineRange.lines, LineRange.contains, List.mem_range'_1, Bool.and_eq_true, decide_eq_true_eq]
  omega

theorem checkLine_of_lt (h : n < lines.length) : checkLine lines n = .ok () := by
  simp [checkLine, h]

theorem checkLine_of_le (h : lines.length ≤ n) : checkLine lines n = .error ⟨n, lines.length⟩ := by
  simp [checkLine, h]

theorem mapM_checkLine (h : ∀ n ∈ ns, n < lines.length) :
    (ns.mapM fun n => do checkLine lines n; return (⟨n, .toggle⟩ : Edit)) =
      .ok (ns.map fun n => ⟨n, .toggle⟩) := by
  induction ns with
  | nil => rfl
  | cons k ns ih =>
    rw [List.mapM_cons, checkLine_of_lt (h k List.mem_cons_self),
      ih fun n hn => h n (List.mem_cons_of_mem _ hn)]
    rfl

/-- Of ascending lines the first that is not there is the least one. -/
theorem mapM_checkLine_of_missing (ascending : ns.Pairwise (· < ·)) (hn : n ∈ ns)
    (hle : lines.length ≤ n) (hleast : ∀ m ∈ ns, lines.length ≤ m → n ≤ m) :
    (ns.mapM fun n => do checkLine lines n; return (⟨n, .toggle⟩ : Edit)) =
      .error ⟨n, lines.length⟩ := by
  induction ns with
  | nil => cases hn
  | cons k ns ih =>
    obtain ⟨habove, hrest⟩ := List.pairwise_cons.mp ascending
    rw [List.mapM_cons]
    by_cases hk : k < lines.length
    · have hmem : n ∈ ns := (List.mem_cons.mp hn).resolve_left (by omega)
      rw [checkLine_of_lt hk, ih hrest hmem fun m hm => hleast m (List.mem_cons_of_mem _ hm)]
      rfl
    · have hkn : k = n := by
        have := hleast k List.mem_cons_self (by omega)
        rcases List.mem_cons.mp hn with h | h
        · exact h.symm
        · have := habove n h
          omega
      rw [hkn, checkLine_of_le hle]
      rfl

theorem lists_line (n : Nat) : (⟨(· == n), .toggle⟩ : Plan).Lists [⟨n, .toggle⟩] :=
  .mk [n] (List.pairwise_singleton _ n) (by simp)

theorem lists_ruleEdits (lines : List Line) (n : Nat) : (planRule lines n).Lists (ruleEdits lines n) :=
  .mk _ (pairwise_lines _) fun _ => mem_lines_iff _

theorem selected_eq (a b : Nat) :
    (if a ≤ b then ⟨a, b⟩ else ⟨b, a⟩ : LineRange) = ⟨min a b, max a b⟩ := by
  split <;> simp <;> omega

/-- A request whose lines are there comes to a list of its edits. -/
theorem edits_of_present (h : ∀ n ∈ request.named, n < lines.length) :
    ∃ es, edits lines request = .ok es ∧ (plan lines request).Lists es := by
  cases request with
  | line n =>
    have hn := h n (List.mem_singleton_self n)
    exact ⟨_, by simp only [edits, checkLine_of_lt hn]; rfl, lists_line n⟩
  | carets ns =>
    have hsorted : ∀ n ∈ ns.mergeSort.eraseReps, n < lines.length :=
      fun n hn => h n ((mem_sorted_eraseReps ns).mp hn)
    refine ⟨_, mapM_checkLine hsorted, .mk _ (pairwise_sorted_eraseReps ns) ?_⟩
    simp [plan, mem_sorted_eraseReps]
  | selection a b =>
    have hlast := h (max a b) (List.mem_singleton_self _)
    refine ⟨_, by simp only [edits, selected_eq, checkLine_of_lt hlast]; rfl, ?_⟩
    exact .mk _ (pairwise_lines _) fun _ => mem_lines_iff _
  | rule n =>
    have hn := h n (List.mem_singleton_self n)
    exact ⟨_, by simp only [edits, checkLine_of_lt hn]; rfl, lists_ruleEdits lines n⟩
  | smart n =>
    have hn := h n (List.mem_singleton_self n)
    simp only [edits, plan, checkLine_of_lt hn]
    split
    · exact ⟨_, rfl, lists_ruleEdits lines n⟩
    · exact ⟨_, rfl, lists_line n⟩

theorem edits_of_missing (h : missing? lines.length request = some n) :
    edits lines request = .error ⟨n, lines.length⟩ := by
  obtain ⟨hn, hle, hleast⟩ := missing?_eq_some_iff.mp h
  cases request with
  | carets ns =>
    refine mapM_checkLine_of_missing (pairwise_sorted_eraseReps ns) ((mem_sorted_eraseReps ns).mpr hn)
      hle ?_
    exact fun m hm => hleast m ((mem_sorted_eraseReps ns).mp hm)
  | selection a b =>
    cases List.mem_singleton.mp hn
    simp only [edits, selected_eq, checkLine_of_le hle]
    rfl
  | line k | rule k | smart k =>
    cases List.mem_singleton.mp hn
    simp only [edits, checkLine_of_le hle]
    rfl

/-- Walking over the lines with ascending edits makes each of them where its line is: none is passed before
its turn comes. -/
theorem merge_eq_mapIdx (ascending : ns.Pairwise (· < ·)) (ahead : ∀ m ∈ ns, n ≤ m) :
    merge n lines (ns.map fun m => ⟨m, direction⟩) = lines.mapIdx fun i line =>
      if i + n ∈ ns then { line with content := direction.edit line.content } else line := by
  induction lines generalizing n ns with
  | nil => simp [merge]
  | cons line lines ih =>
    have hshift : ∀ i, i + 1 + n = i + (n + 1) := by omega
    cases ns with
    | nil =>
      have hrest := ih (n := n + 1) List.Pairwise.nil (by simp)
      simp only [List.map_nil] at hrest
      simp [merge, hrest]
    | cons k ks =>
      obtain ⟨habove, hrest⟩ := List.pairwise_cons.mp ascending
      have hk := ahead k List.mem_cons_self
      simp only [List.map_cons, merge, List.mapIdx_cons, Nat.zero_add, hshift]
      by_cases hkn : k = n
      · subst hkn
        have hmem : ∀ i, i + (k + 1) ∈ k :: ks ↔ i + (k + 1) ∈ ks := by
          intro i
          rw [List.mem_cons, or_iff_right (by omega)]
        simp only [if_pos, List.mem_cons_self, ih hrest habove, hmem]
      · have hahead : ∀ m ∈ k :: ks, n + 1 ≤ m := by
          intro m hm
          rcases List.mem_cons.mp hm with rfl | hm
          · omega
          · have := habove m hm
            omega
        have hnot : n ∉ k :: ks := by
          intro hn
          have := hahead n hn
          omega
        rw [if_neg hkn, if_neg hnot]
        congr 1
        exact ih ascending hahead

theorem Plan.Lists.merge_eq {plan : Plan} {es : List Edit} (h : plan.Lists es) (lines : List Line) :
    merge 0 lines es = plan.apply lines := by
  obtain ⟨ns, ascending, mem⟩ := h
  rw [merge_eq_mapIdx ascending fun m _ => Nat.zero_le m, Plan.apply]
  simp only [Nat.add_zero, mem]

/-- The list of edits, checked line by line and merged into the lines, comes to the plan of the request. -/
theorem apply_eq (source : List Char) (request : Request) :
    apply source request = match missing? (Line.ofText source).length request with
      | some n => .error ⟨n, (Line.ofText source).length⟩
      | none => .ok (Line.join ((plan (Line.ofText source) request).apply (Line.ofText source))) := by
  cases h : missing? (Line.ofText source).length request with
  | some n =>
    simp only [apply, edits_of_missing h]
    rfl
  | none =>
    obtain ⟨es, hedits, hlists⟩ := edits_of_present (missing?_eq_none_iff.mp h)
    simp only [apply, hedits, ← hlists.merge_eq]
    rfl

end VoiceScript.Comment
