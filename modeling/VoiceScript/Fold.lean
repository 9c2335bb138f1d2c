import VoiceScript.Item
import VoiceScript.Outline

namespace VoiceScript

/-- What stands for the hidden text. -/
inductive Placeholder where
  | body
  | binding
  deriving DecidableEq

def Placeholder.text : Placeholder → String
  | body => " ..."
  | binding => " \x7b ... \x7d"

/-- What can be hidden of a construct that takes several lines: from the end of its first line, which stays in
view, to the end of its last. -/
structure Fold where
  span : Span
  placeholder : Placeholder
  deriving DecidableEq

namespace Fold

/-- A fold between two offsets, if there is something between them. -/
def between? (start stop : Nat) (placeholder : Placeholder) : Option Fold :=
  if start < stop then some ⟨⟨start, stop⟩, placeholder⟩ else none

/-- The tokens of a tree that neither trivia nor newlines are. -/
def solid (tree : Tree) : List Token :=
  tree.leaves.filter fun token => !token.isTrivia && token.kind != .newline

/-- The end of the first of the tokens that an offset is inside of, or else the offset. -/
def pastToken (tokens : List Token) (offset : Nat) : Nat :=
  match tokens.find? fun token => token.start < offset && offset < token.stop with
  | none => offset
  | some token => token.stop

/-- The fold of a node of the tree. Where a literal goes past the end of the first line, the fold
starts after it. -/
def ofNode? (lines : List Line) (placeholder : Placeholder) (node : Tree) : Option Fold := do
  let extent ← Tree.extent (solid node)
  let first := Line.ofOffset lines extent.start
  let last := Line.ofOffset lines (extent.stop - 1)
  if first = last then none
  else
    let start ← Line.contentEnd? lines first
    let stop ← Line.contentEnd? lines last
    between? (pastToken node.leaves start) (max stop extent.stop) placeholder

/-- The folds of an item and of its statements. -/
def ofItem (lines : List Line) (item : Item) : List Fold :=
  let placeholder := match item with
    | .binding _ => .binding
    | _ => .body
  (ofNode? lines placeholder item.node).toList
    ++ item.statements.filterMap fun statement => ofNode? lines .body statement.node

/-- The folds of a tree, in the order of the text. -/
def ofTree (tree : Tree) : List Fold :=
  (File.ofTree tree).items.flatMap (ofItem (Line.ofText tree.text))

/-- The fold of a rule that has body lines. -/
def ofRule? (lines : List Line) (rule : LineRange) : Option Fold := do
  if rule.isSingle then none
  else
    let start ← Line.contentEnd? lines rule.first
    let stop ← Line.contentEnd? lines rule.last
    between? start stop .body

/-- The folds of the rules that the lines of a text look like. -/
def ofLines (source : List Char) : List Fold :=
  let lines := Line.ofText source
  (Outline.rules lines).filterMap (ofRule? lines)

end Fold

end VoiceScript
