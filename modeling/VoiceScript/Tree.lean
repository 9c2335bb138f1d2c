import VoiceScript.Token

namespace VoiceScript

/-- What a parser reports as it goes through the tokens. -/
inductive Event where
  /-- A node starts inside the innermost open one. -/
  | start (kind : NodeKind)
  /-- A token belongs to the innermost open node. -/
  | token (token : Token)
  /-- The innermost open node ends. -/
  | finish
  deriving DecidableEq

/-- The tokens among events. -/
def Event.tokens (events : List Event) : List Token :=
  events.filterMap fun
    | .token t => some t
    | _ => none

/-- A token, or a node over trees. The leaves of a tree are the tokens of its source. -/
inductive Tree where
  | leaf (token : Token)
  | node (kind : NodeKind) (children : List Tree)

namespace Tree

mutual

/-- The tokens of a tree, from left to right. -/
def leaves : Tree → List Token
  | leaf token => [token]
  | node _ children => leavesAll children

/-- The tokens of a row of trees, from left to right. -/
def leavesAll : List Tree → List Token
  | [] => []
  | tree :: trees => tree.leaves ++ leavesAll trees

end

theorem leavesAll_eq_flatMap (trees : List Tree) : leavesAll trees = trees.flatMap leaves := by
  induction trees with
  | nil => rfl
  | cons tree trees ih => rw [leavesAll, ih, List.flatMap_cons]

@[simp] theorem leaves_leaf (token : Token) : (leaf token).leaves = [token] := rfl

@[simp] theorem leaves_node (kind : NodeKind) (children : List Tree) :
    (node kind children).leaves = leavesAll children := rfl

@[simp] theorem leavesAll_nil : leavesAll [] = [] := rfl

@[simp] theorem leavesAll_cons (tree : Tree) (trees : List Tree) :
    leavesAll (tree :: trees) = tree.leaves ++ leavesAll trees := rfl

@[simp] theorem leavesAll_append (as bs : List Tree) :
    leavesAll (as ++ bs) = leavesAll as ++ leavesAll bs := by
  simp only [leavesAll_eq_flatMap, List.flatMap_append]

@[simp] theorem leavesAll_map_leaf (tokens : List Token) : leavesAll (tokens.map leaf) = tokens := by
  induction tokens with
  | nil => rfl
  | cons token tokens ih => simp [ih]

/-- The span from the first to the last of a row of tokens. -/
def extent (tokens : List Token) : Option Span :=
  match tokens.head?, tokens.getLast? with
  | some first, some last => some ⟨first.start, last.stop⟩
  | _, _ => none

theorem extent_eq_some_iff {tokens : List Token} {span : Span} :
    extent tokens = some span ↔
      ∃ first last, tokens.head? = some first ∧ tokens.getLast? = some last ∧
        span = ⟨first.start, last.stop⟩ := by
  unfold extent
  split
  · rename_i first last hhead hlast
    simp [hhead, hlast, eq_comm]
  · rename_i hne
    constructor
    · intro h
      cases h
    · rintro ⟨first, last, hhead, hlast, rfl⟩
      exact absurd hlast (hne first last hhead)

/-- The place of a tree. A tree without tokens is that of the empty text. -/
def span (tree : Tree) : Span :=
  (extent tree.leaves).getD ⟨0, 0⟩

/-- The text of a tree. -/
def text (tree : Tree) : List Char :=
  Token.spelling tree.leaves

def children : Tree → List Tree
  | leaf _ => []
  | node _ children => children

def token? : Tree → Option Token
  | leaf token => some token
  | node _ _ => none

/-- The kind of a tree. -/
def kind : Tree → Kind
  | leaf token => .token token.kind
  | node kind _ => .node kind

/-- Builds trees from events, the latest first. There is a row of finished trees for each node still
open at that point and one for what stands outside; a tree comes to stand before those built so far. -/
def build : List Event → List (List Tree) → Option (List (List Tree))
  | [], rows => some rows
  | .token token :: events, row :: rows => build events ((leaf token :: row) :: rows)
  | .finish :: events, rows => build events ([] :: rows)
  | .start kind :: events, inner :: row :: rows => build events ((node kind inner :: row) :: rows)
  | _ :: _, _ => none

/-- The tree that events tell of, the latest event first: there is one if every node that starts
ends, and one node holds all tokens. -/
def ofEvents? (events : List Event) : Option Tree :=
  match build events [[]] with
  | some [[node kind children]] => some (node kind children)
  | _ => none

end Tree

end VoiceScript
