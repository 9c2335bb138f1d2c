import VoiceScript.Proofs.Starts

namespace VoiceScript

/-- A change of tokens that keeps their kinds. It may leave the trivia out. -/
structure Recast where
  token : Token → Token
  keepsTrivia : Bool
  kind_token : ∀ t, (token t).kind = t.kind

namespace Recast

def withoutTrivia : Recast :=
  ⟨id, false, fun _ => rfl⟩

/-- The tokens that are kept, changed. -/
def tokens (r : Recast) (ts : List Token) : List Token :=
  (ts.filter fun t => r.keepsTrivia || !t.isTrivia).map r.token

variable {r : Recast} {t : Token} {ts us : List Token}

@[simp] theorem isTrivia_token (r : Recast) (t : Token) : (r.token t).isTrivia = t.isTrivia := by
  rw [Token.isTrivia, Token.isTrivia, r.kind_token]

@[simp] theorem tokens_nil : r.tokens [] = [] := rfl

@[simp] theorem tokens_append : r.tokens (ts ++ us) = r.tokens ts ++ r.tokens us := by
  simp [tokens]

theorem tokens_cons (r : Recast) (t : Token) (ts : List Token) :
    r.tokens (t :: ts) = r.tokens [t] ++ r.tokens ts := by
  rw [← tokens_append, List.singleton_append]

theorem tokens_cons_of_isTrivia_eq_false (h : t.isTrivia = false) :
    r.tokens (t :: ts) = r.token t :: r.tokens ts := by
  simp [tokens, h]

theorem tokens_isTrivia (h : ∀ t ∈ ts, t.isTrivia = true) : ∀ t ∈ r.tokens ts, t.isTrivia = true := by
  intro u hu
  obtain ⟨t, hm, rfl⟩ := List.mem_map.mp hu
  rw [isTrivia_token]
  exact h t (List.mem_filter.mp hm).1

theorem tokens_withoutTrivia (ts : List Token) :
    withoutTrivia.tokens ts = Token.withoutTrivia ts := by
  simp [tokens, withoutTrivia, Token.withoutTrivia]

end Recast

namespace Tree

mutual

def recast (r : Recast) : Tree → Tree
  | leaf token => leaf (r.token token)
  | node kind children => node kind (recastAll r children)

def recastAll (r : Recast) : List Tree → List Tree
  | [] => []
  | tree :: trees =>
    if r.keepsTrivia || !tree.kind.isTrivia then tree.recast r :: recastAll r trees
    else recastAll r trees

end

variable {r : Recast} {as bs trees : List Tree}

@[simp] theorem recast_leaf (r : Recast) (token : Token) :
    (leaf token).recast r = leaf (r.token token) := by
  rw [recast]

@[simp] theorem recast_node (r : Recast) (kind : NodeKind) (children : List Tree) :
    (node kind children).recast r = node kind (recastAll r children) := by
  rw [recast]

@[simp] theorem recastAll_nil (r : Recast) : recastAll r [] = [] := by
  rw [recastAll]

@[simp] theorem recastAll_node (r : Recast) (kind : NodeKind) (children trees : List Tree) :
    recastAll r (node kind children :: trees) =
      node kind (recastAll r children) :: recastAll r trees := by
  simp [recastAll, Tree.kind, Kind.isTrivia]

@[simp] theorem recastAll_append (r : Recast) (as bs : List Tree) :
    recastAll r (as ++ bs) = recastAll r as ++ recastAll r bs := by
  induction as with
  | nil => simp
  | cons tree as ih =>
    rw [List.cons_append, recastAll, recastAll, ih]
    split <;> rfl

theorem recastAll_leaf (r : Recast) (token : Token) (trees : List Tree) :
    recastAll r (leaf token :: trees) = (r.tokens [token]).map leaf ++ recastAll r trees := by
  rw [recastAll, Recast.tokens]
  change (if r.keepsTrivia || !token.isTrivia then _ else _) = _
  cases h : r.keepsTrivia || !token.isTrivia <;> simp [h]

theorem recastAll_cons_of_isTrivia_eq_false {tree : Tree} (h : tree.kind.isTrivia = false) :
    recastAll r (tree :: trees) = tree.recast r :: recastAll r trees := by
  rw [recastAll, h]
  simp

@[simp] theorem recastAll_map_leaf (r : Recast) (ts : List Token) :
    recastAll r (ts.map leaf) = (r.tokens ts).map leaf := by
  induction ts with
  | nil => simp
  | cons t ts ih =>
    rw [List.map_cons, recastAll_leaf, ih, Recast.tokens_cons r t ts, List.map_append]

mutual

theorem leaves_recast (r : Recast) (tree : Tree) (h : tree.kind.isTrivia = false) :
    (tree.recast r).leaves = r.tokens tree.leaves := by
  match tree with
  | leaf token =>
    have hk : token.isTrivia = false := h
    simp [Recast.tokens, hk]
  | node kind children => simp [leavesAll_recastAll r children]

theorem leavesAll_recastAll (r : Recast) (trees : List Tree) :
    leavesAll (recastAll r trees) = r.tokens (leavesAll trees) := by
  match trees with
  | [] => simp
  | leaf token :: trees =>
    rw [recastAll_leaf, leavesAll_append, leavesAll_map_leaf, leavesAll_recastAll r trees,
      leavesAll_cons, Recast.tokens_append, leaves_leaf]
  | node kind children :: trees =>
    rw [recastAll_node, leavesAll_cons, leaves_node, leavesAll_recastAll r children,
      leavesAll_recastAll r trees, leavesAll_cons, Recast.tokens_append, leaves_node]

end

end Tree

namespace Spaced

variable {r : Recast} {row : List Spaced}

def recast (r : Recast) (w : Spaced) : Spaced where
  lead := r.tokens w.lead
  token := r.token w.token
  lead_isTrivia := Recast.tokens_isTrivia w.lead_isTrivia
  token_isTrivia := (r.isTrivia_token w.token).trans w.token_isTrivia

@[simp] theorem kind_recast (r : Recast) (w : Spaced) : (w.recast r).kind = w.kind :=
  r.kind_token w.token

theorem recast_bare (r : Recast) (w : Spaced) : w.bare.recast r = (w.recast r).bare := rfl

theorem tokens_recast (r : Recast) (row : List Spaced) :
    tokens (row.map (recast r)) = r.tokens (tokens row) := by
  induction row with
  | nil => rfl
  | cons w row ih =>
    rw [List.map_cons, tokens_cons, tokens_cons, ih, Recast.tokens_append,
      Recast.tokens_cons_of_isTrivia_eq_false w.token_isTrivia]
    rfl

theorem leaves_recast (r : Recast) (row : List Spaced) :
    Tree.recastAll r (leaves row) = leaves (row.map (recast r)) := by
  rw [leaves, Tree.recastAll_map_leaf, leaves, tokens_recast]

end Spaced

namespace Tree

/-- Trees without the trivia among their leaves. -/
def withoutTrivia (trees : List Tree) : List Tree :=
  recastAll .withoutTrivia trees

@[simp] theorem withoutTrivia_nil : withoutTrivia [] = [] :=
  recastAll_nil _

@[simp] theorem withoutTrivia_append (as bs : List Tree) :
    withoutTrivia (as ++ bs) = withoutTrivia as ++ withoutTrivia bs :=
  recastAll_append _ as bs

@[simp] theorem withoutTrivia_node (kind : NodeKind) (children trees : List Tree) :
    withoutTrivia (node kind children :: trees) =
      node kind (withoutTrivia children) :: withoutTrivia trees :=
  recastAll_node _ kind children trees

theorem withoutTrivia_map_leaf (tokens : List Token) :
    withoutTrivia (tokens.map leaf) = (Token.withoutTrivia tokens).map leaf := by
  rw [withoutTrivia, recastAll_map_leaf, Recast.tokens_withoutTrivia]

@[simp] theorem withoutTrivia_leaves (row : List Spaced) :
    withoutTrivia (Spaced.leaves row) = (row.map Spaced.token).map leaf := by
  rw [Spaced.leaves, withoutTrivia_map_leaf, Reading.withoutTrivia_row]

theorem withoutTrivia_trivia {tokens : List Token} (h : ∀ t ∈ tokens, t.isTrivia = true) :
    withoutTrivia (tokens.map leaf) = [] := by
  have hnone : Token.withoutTrivia (Spaced.tokens [] ++ tokens) = [] :=
    Reading.withoutTrivia_tokens h
  rw [withoutTrivia_map_leaf]
  exact congrArg (List.map leaf) hnone

theorem kind_recast_isTrivia (r : Recast) (tree : Tree) :
    (tree.recast r).kind.isTrivia = tree.kind.isTrivia := by
  cases tree with
  | leaf t =>
    rw [recast_leaf]
    exact r.isTrivia_token t
  | node kind children =>
    rw [recast_node]
    rfl

theorem recastAll_eq_map {r : Recast} {trees : List Tree}
    (h : ∀ tree ∈ trees, tree.kind.isTrivia = false) : recastAll r trees = trees.map (recast r) := by
  induction trees with
  | nil => simp
  | cons tree trees ih =>
    rw [recastAll_cons_of_isTrivia_eq_false (h tree (by simp)), List.map_cons,
      ih fun t ht => h t (by simp [ht])]

theorem kind_of_mem_withoutTrivia {tree : Tree} {trees : List Tree} (h : tree ∈ withoutTrivia trees) :
    tree.kind.isTrivia = false := by
  induction trees with
  | nil =>
    rw [withoutTrivia_nil] at h
    cases h
  | cons first trees ih =>
    cases hf : first.kind.isTrivia with
    | true =>
      rw [withoutTrivia, recastAll, hf] at h
      exact ih h
    | false =>
      rw [withoutTrivia, recastAll_cons_of_isTrivia_eq_false hf] at h
      rcases List.mem_cons.mp h with rfl | h
      · rw [kind_recast_isTrivia, hf]
      · exact ih h

mutual

theorem withoutTrivia_recast (r : Recast) (tree : Tree) :
    (tree.recast r).recast .withoutTrivia = (tree.recast .withoutTrivia).recast r := by
  match tree with
  | leaf t =>
    simp only [recast_leaf]
    rfl
  | node kind children =>
    simp only [recast_node]
    exact congrArg (node kind) (withoutTrivia_recastAll r children)

/-- It does not matter when trivia is left out. -/
theorem withoutTrivia_recastAll (r : Recast) (trees : List Tree) :
    withoutTrivia (recastAll r trees) = recastAll r (withoutTrivia trees) := by
  match trees with
  | [] => simp
  | tree :: trees =>
    cases ht : tree.kind.isTrivia with
    | true =>
      have hleft : withoutTrivia (recastAll r (tree :: trees)) = withoutTrivia (recastAll r trees) := by
        rw [recastAll]
        split
        · rw [withoutTrivia, recastAll, kind_recast_isTrivia, ht]
          rfl
        · rfl
      have hright : withoutTrivia (tree :: trees) = withoutTrivia trees := by
        rw [withoutTrivia, recastAll, ht]
        rfl
      rw [hleft, hright]
      exact withoutTrivia_recastAll r trees
    | false =>
      have hr : (tree.recast r).kind.isTrivia = false := (kind_recast_isTrivia r tree).trans ht
      have hw : (tree.recast .withoutTrivia).kind.isTrivia = false :=
        (kind_recast_isTrivia .withoutTrivia tree).trans ht
      rw [recastAll_cons_of_isTrivia_eq_false ht, withoutTrivia,
        recastAll_cons_of_isTrivia_eq_false hr, withoutTrivia, recastAll_cons_of_isTrivia_eq_false ht,
        recastAll_cons_of_isTrivia_eq_false hw, withoutTrivia_recast r tree]
      exact congrArg (List.cons _) (withoutTrivia_recastAll r trees)

end

end Tree

namespace Reading

open Spaced

variable {r : Recast} {above : Bool} {w : Spaced} {row : List Spaced}

theorem takes_recast (stop : Option TokenKind → Bool) (r : Recast) :
    takes stop ∘ recast r = takes stop := by
  funext w
  simp [takes]

theorem takeWhile_recast (stop : Option TokenKind → Bool) (r : Recast) (row : List Spaced) :
    (row.map (recast r)).takeWhile (takes stop) = (row.takeWhile (takes stop)).map (recast r) := by
  rw [List.takeWhile_map, takes_recast]

theorem dropWhile_recast (stop : Option TokenKind → Bool) (r : Recast) (row : List Spaced) :
    (row.map (recast r)).dropWhile (takes stop) = (row.dropWhile (takes stop)).map (recast r) := by
  rw [List.dropWhile_map, takes_recast]

theorem opened_recast (r : Recast) (kind : NodeKind) (w : Spaced) (children : List Tree) :
    Tree.recastAll r (opened kind w children) = opened kind (w.recast r) (Tree.recastAll r children) := by
  have hw : (Tree.leaf w.token).kind.isTrivia = false := w.token_isTrivia
  rw [opened, Tree.recastAll_append, Tree.recastAll_map_leaf, Tree.recastAll_node,
    Tree.recastAll_cons_of_isTrivia_eq_false hw]
  simp [opened, recast]

theorem statement_recast (r : Recast) (w : Spaced) (row : List Spaced) :
    Tree.recastAll r (statement w row) = statement (w.recast r) (row.map (recast r)) := by
  rw [statement, opened_recast, leaves_recast, statement, takeWhile_recast]

theorem blockLines_recast (r : Recast) (row : List Spaced) :
    blockLines (row.map (recast r)) =
      (Tree.recastAll r (blockLines row).1, (blockLines row).2.map (recast r)) := by
  fun_induction blockLines row with
  | case1 => simp [blockLines]
  | case2 w row h =>
    rw [List.map_cons, blockLines, kind_recast, if_pos h]
    simp
  | case3 w row h hw lines ih =>
    rw [List.map_cons, blockLines, kind_recast, if_neg h, if_pos hw, ih, Tree.recastAll_append,
      leaves_recast]
    rfl
  | case4 w row h hw lines ih =>
    rw [List.map_cons, blockLines, kind_recast, if_neg h, if_neg hw, dropWhile_recast, ih,
      Tree.recastAll_append, statement_recast]

theorem block_recast (r : Recast) (row : List Spaced) :
    block (row.map (recast r)) = (Tree.recastAll r (block row).1, (block row).2.map (recast r)) := by
  fun_cases block row with
  | case1 => simp [block]
  | case2 w row hw =>
    rw [List.map_cons, block, kind_recast, if_pos hw, ← List.map_cons, blockLines_recast]
  | case3 w row hw =>
    rw [List.map_cons, block, kind_recast, if_neg hw, dropWhile_recast, blockLines_recast,
      Tree.recastAll_append, statement_recast]

theorem eat_recast (kind : TokenKind) (r : Recast) (row : List Spaced) :
    eat kind (row.map (recast r)) =
      ((eat kind row).1.map (recast r), (eat kind row).2.map (recast r)) := by
  fun_cases eat kind row with
  | case1 => rfl
  | case2 w row h => simp [eat, h]
  | case3 w row h => simp [eat, h]

theorem separatorLine_recast (r : Recast) (row : List Spaced) :
    separatorLine (row.map (recast r)) =
      ((separatorLine row).1.map (recast r), (separatorLine row).2.map (recast r)) := by
  fun_cases separatorLine row with
  | case1 => rfl
  | case2 w row h => simp [separatorLine, h, eat_recast]
  | case3 w row h => simp [separatorLine, h]

theorem headerLine_recast (r : Recast) (row : List Spaced) :
    headerLine (row.map (recast r)) =
      ((headerLine row).1.map (recast r), (headerLine row).2.map (recast r)) := by
  simp only [headerLine, dropWhile_recast, takeWhile_recast, eat_recast, separatorLine_recast,
    List.map_append]

/-- A tree and the rest of a row, changed. -/
def recastResult (r : Recast) (result : Tree × List Spaced) : Tree × List Spaced :=
  (result.1.recast r, result.2.map (recast r))

theorem header?_recast (r : Recast) (above : Bool) (row : List Spaced) :
    header? above (row.map (recast r)) = (header? above row).map (recastResult r) := by
  have hd : (row.map (recast r)).dropWhile isModifier = (row.dropWhile isModifier).map (recast r) :=
    dropWhile_recast _ r row
  have ht : (row.map (recast r)).takeWhile isModifier = (row.takeWhile isModifier).map (recast r) :=
    takeWhile_recast _ r row
  rw [header?, header?, hd, ht]
  cases row.dropWhile isModifier with
  | nil => rfl
  | cons key rest =>
    cases rest with
    | nil => rfl
    | cons colon after =>
      simp only [List.map_cons, kind_recast, headerLine_recast]
      split
      · simp only [Option.map_some, recastResult, Tree.recast_node, leaves_recast, List.map_append,
          List.map_cons]
      · rfl

theorem arguments?_recast (r : Recast) (row : List Spaced) :
    arguments? (row.map (recast r)) =
      (arguments? row).map fun result => (Tree.recastAll r result.1, result.2.map (recast r)) := by
  cases row with
  | nil => simp [arguments?]
  | cons w row =>
    rw [List.map_cons, arguments?, arguments?, kind_recast, dropWhile_recast]
    split
    · cases row.dropWhile (takes (· == some .parenClose)) with
      | nil => rfl
      | cons close rest =>
        simp only [List.map_cons, Option.map_some, opened_recast, leaves_recast, takeWhile_recast,
          List.map_append, List.map_nil]
    · simp

theorem binding?_recast (r : Recast) (row : List Spaced) :
    binding? (row.map (recast r)) = (binding? row).map (recastResult r) := by
  cases row with
  | nil => rfl
  | cons keyword row =>
    rw [List.map_cons, binding?, binding?, kind_recast, arguments?_recast]
    split
    · cases arguments? row with
      | none => rfl
      | some result =>
        obtain ⟨arguments, rest⟩ := result
        cases rest with
        | nil => rfl
        | cons colon after =>
          simp only [Option.map_some, List.map_cons, kind_recast, block_recast]
          split
          · simp only [Option.map_some, recastResult, Tree.recast_node, Tree.recastAll_append,
              leaves_recast, List.map_cons, List.map_nil]
          · rfl
    · rfl

theorem command?_recast (r : Recast) (row : List Spaced) :
    command? (row.map (recast r)) = (command? row).map (recastResult r) := by
  rw [command?, command?, dropWhile_recast, takeWhile_recast]
  cases row.takeWhile (takes (Ahead.isIn .ruleEnd)) with
  | nil => rfl
  | cons first rule =>
    cases row.dropWhile (takes (Ahead.isIn .ruleEnd)) with
    | nil => rfl
    | cons colon after =>
      simp only [List.map_cons, kind_recast, block_recast]
      split
      · simp only [Option.map_some, recastResult, Tree.recast_node, List.cons_append,
          Tree.recastAll_node, Tree.recastAll_append, leaves_recast, List.map_cons, List.map_nil]
      · rfl

theorem construct?_recast (r : Recast) (above : Bool) (row : List Spaced) :
    construct? above (row.map (recast r)) = (construct? above row).map (recastResult r) := by
  rw [construct?, construct?, header?_recast, binding?_recast, command?_recast]
  cases header? above row with
  | some result => rfl
  | none => cases binding? row <;> rfl

theorem next_recast (r : Recast) (above : Bool) (w : Spaced) (row : List Spaced) :
    next above (w.recast r) (row.map (recast r)) = recastResult r (next above w row) := by
  have h := construct?_recast r above (w.bare :: row)
  rw [List.map_cons, recast_bare] at h
  rw [next, next, h]
  cases construct? above (w.bare :: row) with
  | none => simp [recastResult, recast]
  | some result => rfl

theorem hasSeparator_recast (r : Recast) (ts : List Token) :
    hasSeparator (r.tokens ts) = hasSeparator ts := by
  induction ts with
  | nil => rfl
  | cons t ts ih =>
    have hone : hasSeparator (r.tokens [t]) = hasSeparator [t] := by
      cases ht : t.isTrivia with
      | false =>
        rw [Recast.tokens_cons_of_isTrivia_eq_false ht]
        simp [hasSeparator, r.kind_token]
      | true =>
        have hall : ∀ u ∈ [t], u.isTrivia = true := by simp [ht]
        rw [hasSeparator_trivia hall, hasSeparator_trivia (Recast.tokens_isTrivia hall)]
    rw [Recast.tokens_cons, hasSeparator_append, hone, ih, ← hasSeparator_append, List.singleton_append]

/-- The tree of a round is a construct or a token of the grammar. -/
theorem next_kind_isTrivia (above : Bool) (w : Spaced) (row : List Spaced) :
    (next above w row).1.kind.isTrivia = false := by
  unfold next
  cases h : construct? above (w.bare :: row) with
  | none => exact w.token_isTrivia
  | some result =>
    obtain ⟨tree, rest⟩ := result
    rcases Option.or_eq_some_iff.mp h with h | ⟨_, h⟩
    · obtain ⟨_, _, _, _, _, _, _, rfl⟩ := header?_eq_some h
      rfl
    · rcases Option.or_eq_some_iff.mp h with h | ⟨_, h⟩
      · obtain ⟨_, _, _, _, _, _, _, _, _, _, rfl⟩ := binding?_eq_some h
        rfl
      · obtain ⟨_, _, _, _, _, _, _, _, rfl⟩ := command?_eq_some h
        rfl

/-- Reading a changed row gives the changed trees. -/
theorem file_recast (r : Recast) (above : Bool) (row : List Spaced) :
    file above (row.map (recast r)) = Tree.recastAll r (file above row) := by
  fun_induction rounds above row with
  | case1 above => simp [file_nil]
  | case2 above w row ih =>
    have hk := next_kind_isTrivia above w row
    have hs : hasSeparator ((next above w row).1.recast r).leaves =
        hasSeparator (next above w row).1.leaves := by
      rw [Tree.leaves_recast r _ hk, hasSeparator_recast]
    rw [List.map_cons, file_cons, file_cons, next_recast, recastResult, hs, ih,
      Tree.recastAll_append, Tree.recastAll_map_leaf, Tree.recastAll_cons_of_isTrivia_eq_false hk]
    rfl

/-- The tree of a text, changed, is the reading of its changed tokens. -/
theorem recastAll_file (r : Recast) (above : Bool) (row : List Spaced) (tail : List Token) :
    Tree.recastAll r (file above row ++ tail.map .leaf) =
      file above (row.map (recast r)) ++ (r.tokens tail).map .leaf := by
  rw [Tree.recastAll_append, Tree.recastAll_map_leaf, file_recast]

/-- The children of the file without trivia are the trees of the rounds. -/
theorem withoutTrivia_file (above : Bool) (row : List Spaced) {tail : List Token}
    (ht : ∀ t ∈ tail, t.isTrivia = true) :
    Tree.withoutTrivia (file above row ++ tail.map .leaf) =
      (rounds above row).map fun round => round.tree.recast .withoutTrivia := by
  fun_induction rounds above row with
  | case1 above =>
    rw [file_nil, List.nil_append, Tree.withoutTrivia_trivia ht]
    rfl
  | case2 above w row ih =>
    rw [file_cons, List.append_assoc, Tree.withoutTrivia_append,
      Tree.withoutTrivia_trivia w.lead_isTrivia, List.nil_append, List.cons_append,
      Tree.withoutTrivia, Tree.recastAll_cons_of_isTrivia_eq_false (next_kind_isTrivia above w row)]
    exact congrArg (List.cons _) ih

end Reading

end VoiceScript
