import VoiceScript.Proofs.Lossless
import VoiceScript.Proofs.Starts

namespace VoiceScript

/-- What a child of the file is, by the tokens from its first one on. -/
structure Dispatched (all row : List Token) (child : Tree) : Prop where
  header : child.kind = .node .header ↔ StartsHeader all row
  binding : child.kind = .node .binding ↔ ¬ StartsHeader all row ∧ StartsBinding row
  command : child.kind = .node .command ↔
    ¬ StartsHeader all row ∧ ¬ StartsBinding row ∧ StartsCommand row
  dropped : (∃ t, child = .leaf t) ↔
    ¬ StartsHeader all row ∧ ¬ StartsBinding row ∧ ¬ StartsCommand row

/-- A child of the file with the tokens before it and the children after it. -/
def Settled (all passed : List Token) (child : Tree) (after : List Tree) : Prop :=
  (∃ t, child = .leaf t ∧ t.isTrivia = true) ∨
    ∃ t rest, t.isTrivia = false ∧ child.leaves.head? = some t ∧ all = passed ++ t :: rest ∧
      Tree.leavesAll (child :: after) = t :: rest ∧
      Dispatched all (t :: Token.withoutTrivia rest) child ∧
      (child.kind = .node .command ∨ child.kind = .node .binding →
        ∀ u ∈ (Token.withoutTrivia (Tree.leavesAll after)).head?,
          KindSet.topLevelFirst.contains (.token u.kind) = true)

namespace Reading

open Spaced

variable {n : Nat} {above : Bool} {w : Spaced} {row : List Spaced} {tail all passed : List Token}

theorem blockLines_stop (row : List Spaced) :
    ∀ w ∈ (blockLines row).2.head?, KindSet.topLevelFirst.contains (.token w.kind) = true := by
  fun_induction blockLines row with
  | case1 => simp
  | case2 w row h =>
    intro v hv
    cases hv
    exact h
  | case3 w row _ _ lines ih => exact ih
  | case4 w row _ _ lines ih => exact ih

theorem block_stop (row : List Spaced) :
    ∀ w ∈ (block row).2.head?, KindSet.topLevelFirst.contains (.token w.kind) = true := by
  fun_cases block row with
  | case1 => simp
  | case2 w row => exact blockLines_stop (w :: row)
  | case3 w row => exact blockLines_stop _

/-- A round makes a construct of the row if one can be read, in the order of the parser. -/
theorem next_dispatched (hall : all = passed ++ tokens (w.bare :: row) ++ tail)
    (hc : Token.Consecutive n all) :
    Dispatched all ((w.bare :: row).map token)
      (next (hasSeparator all && !hasSeparator passed) w row).1 := by
  have hheader := isSome_header?_iff hall hc
  have hbinding := isSome_binding?_iff (w.bare :: row)
  have hcommand := isSome_command?_iff (w.bare :: row)
  generalize (w.bare :: row).map token = stream at hheader hbinding hcommand ⊢
  unfold next construct?
  cases hh : header? (hasSeparator all && !hasSeparator passed) (w.bare :: row) with
  | some result =>
    obtain ⟨_, _, _, _, _, _, _, htree⟩ := header?_eq_some hh
    rw [hh] at hheader
    have h := hheader.mp rfl
    constructor <;> simp [h, htree, Tree.kind]
  | none =>
    have h : ¬ StartsHeader all stream := by
      rw [← hheader, hh]
      simp
    cases hb : binding? (w.bare :: row) with
    | some result =>
      obtain ⟨_, _, _, _, _, _, _, _, _, _, htree⟩ := binding?_eq_some hb
      rw [hb] at hbinding
      have hb := hbinding.mp rfl
      constructor <;> simp [h, hb, htree, Tree.kind]
    | none =>
      have hb : ¬ StartsBinding stream := by
        rw [← hbinding, hb]
        simp
      cases hm : command? (w.bare :: row) with
      | some result =>
        obtain ⟨_, _, _, _, _, _, _, _, htree⟩ := command?_eq_some hm
        rw [hm] at hcommand
        have hm := hcommand.mp rfl
        constructor <;> simp [h, hb, hm, htree, Tree.kind]
      | none =>
        have hm : ¬ StartsCommand stream := by
          rw [← hcommand, hm]
          simp
        constructor <;> simp [h, hb, hm, Tree.kind]

theorem next_stop (above : Bool) (w : Spaced) (row : List Spaced)
    (hk : (next above w row).1.kind = .node .command ∨ (next above w row).1.kind = .node .binding) :
    ∀ v ∈ (next above w row).2.head?, KindSet.topLevelFirst.contains (.token v.kind) = true := by
  unfold next at hk ⊢
  cases h : construct? above (w.bare :: row) with
  | none =>
    rw [h] at hk
    simp [Tree.kind] at hk
  | some result =>
    obtain ⟨tree, rest⟩ := result
    rw [h] at hk
    rcases Option.or_eq_some_iff.mp h with h | ⟨_, h⟩
    · obtain ⟨_, _, _, _, _, _, _, rfl⟩ := header?_eq_some h
      simp [Tree.kind] at hk
    · rcases Option.or_eq_some_iff.mp h with h | ⟨_, h⟩
      · obtain ⟨_, _, _, _, _, _, _, _, _, rfl, _⟩ := binding?_eq_some h
        exact block_stop _
      · obtain ⟨_, _, _, _, _, _, _, rfl, _⟩ := command?_eq_some h
        exact block_stop _

/-- The tree of a round, after the tokens taken before and the trivia of its own. -/
theorem next_settled (hall : all = passed ++ tokens (w :: row) ++ tail)
    (hc : Token.Consecutive n all) (ht : ∀ t ∈ tail, t.isTrivia = true)
    (ha : above = (hasSeparator all && !hasSeparator passed)) (later : Bool) :
    Settled all (passed ++ w.lead) (next above w row).1
      (file later (next above w row).2 ++ tail.map .leaf) := by
  obtain ⟨taken, hrow, hleaves⟩ := splits_next above w row
  have hsep : hasSeparator (passed ++ w.lead) = hasSeparator passed := by
    rw [hasSeparator_append, hasSeparator_trivia w.lead_isTrivia, Bool.or_false]
  have hbare : all = passed ++ w.lead ++ tokens (w.bare :: row) ++ tail := by
    simp [hall, bare]
  have hafter : Tree.leavesAll (file later (next above w row).2 ++ tail.map .leaf) =
      tokens (next above w row).2 ++ tail := by
    rw [Tree.leavesAll_append, leavesAll_file, Tree.leavesAll_map_leaf]
  have hdispatched := next_dispatched hbare hc
  rw [hsep, ← ha] at hdispatched
  refine .inr ⟨w.token, tokens row ++ tail, w.token_isTrivia, by simp [hleaves], by simp [hall],
    ?_, ?_, ?_⟩
  · rw [Tree.leavesAll_cons, hafter, hleaves]
    conv => rhs; rw [hrow]
    simp
  · rw [withoutTrivia_tokens ht]
    exact hdispatched
  · intro hk u hu
    rw [hafter, withoutTrivia_tokens ht, List.head?_map] at hu
    obtain ⟨v, hv, rfl⟩ := Option.map_eq_some_iff.mp hu
    exact next_stop above w row hk v hv

/-- Where a list is cut before one of its elements, seen from another one. -/
theorem cons_append_cases {α : Type} {xs ys before after : List α} {x y : α}
    (h : xs ++ x :: ys = before ++ y :: after) :
    y ∈ xs ∨ (before = xs ∧ y = x ∧ after = ys) ∨
      ∃ between, before = xs ++ x :: between ∧ ys = between ++ y :: after := by
  rcases List.append_eq_append_iff.mp h with
    ⟨between, rfl, hrest⟩ | ⟨between, rfl, hrest⟩
  · cases between with
    | nil =>
      cases hrest
      exact .inr (.inl ⟨by simp, rfl, rfl⟩)
    | cons z between =>
      cases hrest
      exact .inr (.inr ⟨between, rfl, rfl⟩)
  · cases between with
    | nil =>
      cases hrest
      exact .inr (.inl ⟨by simp, rfl, rfl⟩)
    | cons z between =>
      cases hrest
      exact .inl (by simp)

theorem settled_of_mem {trivia : List Token} {child : Tree} {after : List Tree}
    (h : child ∈ trivia.map .leaf) (ht : ∀ t ∈ trivia, t.isTrivia = true) :
    Settled all passed child after := by
  obtain ⟨t, hm, rfl⟩ := List.mem_map.mp h
  exact .inl ⟨t, rfl, ht t hm⟩

/-- The rounds keep the state of the separators in step with the tokens they have taken. -/
theorem file_settled (hall : all = passed ++ tokens row ++ tail) (hc : Token.Consecutive n all)
    (ht : ∀ t ∈ tail, t.isTrivia = true)
    (ha : above = (hasSeparator all && !hasSeparator passed)) {before after : List Tree}
    {child : Tree} (h : file above row ++ tail.map .leaf = before ++ child :: after) :
    Settled all (passed ++ Tree.leavesAll before) child after := by
  fun_induction rounds above row generalizing passed before with
  | case1 above =>
    rw [file_nil, List.nil_append] at h
    exact settled_of_mem (by rw [h]; simp) ht
  | case2 above w row ih =>
    rw [file_cons, List.append_assoc, List.cons_append] at h
    rcases cons_append_cases h with hm | ⟨rfl, rfl, rfl⟩ | ⟨between, rfl, hrest⟩
    · exact settled_of_mem hm w.lead_isTrivia
    · rw [Tree.leavesAll_map_leaf]
      exact next_settled hall hc ht ha _
    · obtain ⟨taken, hrow, hleaves⟩ := splits_next above w row
      have hnext : all = passed ++ w.lead ++ (next above w row).1.leaves ++
          tokens (next above w row).2 ++ tail := by
        rw [hall, hleaves]
        conv => lhs; rw [hrow]
        simp
      have hstate : (above && !hasSeparator (next above w row).1.leaves) =
          (hasSeparator all &&
            !hasSeparator (passed ++ w.lead ++ (next above w row).1.leaves)) := by
        rw [ha, hasSeparator_append, hasSeparator_append, hasSeparator_trivia w.lead_isTrivia]
        simp [Bool.and_assoc]
      simpa using ih hnext hstate hrest

end Reading

/-- The parser finds just the constructs that the tokens start, and takes a token alone where they
start none. -/
theorem parse_settled (source : List Char) :
    ∃ children diagnostics, parse source = .ok ⟨.node .file children, diagnostics⟩ ∧
      ∀ before child after, children = before ++ child :: after →
        Settled (tokenize source) (Tree.leavesAll before) child after := by
  obtain ⟨row, tail, hs, ht⟩ := Spaced.exists_tokens_eq (tokenize source)
  refine ⟨_, _, parse_eq hs ht, ?_⟩
  intro before child after h
  have hall : tokenize source = [] ++ Spaced.tokens row ++ tail := hs
  exact Reading.file_settled hall (tokenize_consecutive source) ht (by simp [Reading.hasSeparator]) h

end VoiceScript
