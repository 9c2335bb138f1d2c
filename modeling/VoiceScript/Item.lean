import VoiceScript.KindSet
import VoiceScript.Tree

namespace VoiceScript

namespace Tree

/-- The tokens among a row of trees that are no trivia. -/
def significant (trees : List Tree) : List Token :=
  (trees.filterMap token?).filter fun token => !token.isTrivia

def firstOfKind? (kind : TokenKind) (trees : List Tree) : Option Token :=
  (significant trees).find? fun token => token.kind == kind

end Tree

/-- A condition on the context. A view holds the children of its node; what it names is found among them, so a
piece that the tree lacks is `none`. -/
structure Header where
  children : List Tree

/-- The spoken part of a command. -/
structure Rule where
  children : List Tree

structure Statement where
  children : List Tree

structure Command where
  children : List Tree

structure Arguments where
  children : List Tree

/-- A block under a keyword. -/
structure Binding where
  children : List Tree

/-- A construct of a file. -/
inductive Item where
  | header (header : Header)
  | command (command : Command)
  | binding (binding : Binding)

/-- A whole source file. -/
structure File where
  children : List Tree

namespace Header

def isModifier (token : Token) : Bool :=
  KindSet.modifiers.contains (.token token.kind)

def node (h : Header) : Tree :=
  .node .header h.children

def modifiers (h : Header) : List Token :=
  (Tree.significant h.children).takeWhile isModifier

def key? (h : Header) : Option Token :=
  (Tree.significant h.children).find? fun token => !isModifier token

def colon? (h : Header) : Option Token :=
  Tree.firstOfKind? .colon h.children

/-- The tokens between the colon and the end of the line. -/
def value (h : Header) : List Token :=
  let fromColon := (Tree.significant h.children).dropWhile fun token => token.kind != .colon
  (fromColon.drop 1).takeWhile fun token => token.kind != .newline

/-- The text from the first to the last token of the value. -/
def valueText (h : Header) : List Char :=
  match Tree.extent h.value with
  | none => []
  | some extent =>
    let start := h.node.span.start
    Text.slice (extent.start - start) (extent.stop - start) h.node.text

/-- The separator line, if this is the last header above it. -/
def separator? (h : Header) : Option Token :=
  Tree.firstOfKind? .separator h.children

end Header

namespace Rule

def node (r : Rule) : Tree :=
  .node .rule r.children

def tokens (r : Rule) : List Token :=
  Tree.significant r.children

end Rule

namespace Statement

def node (s : Statement) : Tree :=
  .node .statement s.children

def tokens (s : Statement) : List Token :=
  Tree.significant s.children

def ofTree? : Tree → Option Statement
  | .node .statement children => some ⟨children⟩
  | _ => none

end Statement

namespace Command

def node (c : Command) : Tree :=
  .node .command c.children

def rule? (c : Command) : Option Rule :=
  c.children.findSome? fun
    | .node .rule children => some ⟨children⟩
    | _ => none

def colon? (c : Command) : Option Token :=
  Tree.firstOfKind? .colon c.children

def statements (c : Command) : List Statement :=
  c.children.filterMap Statement.ofTree?

end Command

namespace Arguments

def node (a : Arguments) : Tree :=
  .node .bindingArgs a.children

/-- The tokens between the parentheses, without newlines. -/
def tokens (a : Arguments) : List Token :=
  (Tree.significant a.children).filter fun token =>
    token.kind != .parenOpen && token.kind != .parenClose && token.kind != .newline

end Arguments

namespace Binding

def node (b : Binding) : Tree :=
  .node .binding b.children

def keyword? (b : Binding) : Option Token :=
  (Tree.significant b.children).head?

def arguments? (b : Binding) : Option Arguments :=
  b.children.findSome? fun
    | .node .bindingArgs children => some ⟨children⟩
    | _ => none

def colon? (b : Binding) : Option Token :=
  Tree.firstOfKind? .colon b.children

def statements (b : Binding) : List Statement :=
  b.children.filterMap Statement.ofTree?

end Binding

namespace Item

def ofTree? : Tree → Option Item
  | .node .header children => some (header ⟨children⟩)
  | .node .command children => some (command ⟨children⟩)
  | .node .binding children => some (binding ⟨children⟩)
  | _ => none

def node : Item → Tree
  | header h => h.node
  | command c => c.node
  | binding b => b.node

/-- The statements below an item. A header has none. -/
def statements : Item → List Statement
  | header _ => []
  | command c => c.statements
  | binding b => b.statements

end Item

namespace File

def ofTree (tree : Tree) : File :=
  ⟨tree.children⟩

def node (f : File) : Tree :=
  .node .file f.children

def items (f : File) : List Item :=
  f.children.filterMap Item.ofTree?

def headers (f : File) : List Header :=
  f.items.filterMap fun
    | .header h => some h
    | _ => none

def commands (f : File) : List Command :=
  f.items.filterMap fun
    | .command c => some c
    | _ => none

def bindings (f : File) : List Binding :=
  f.items.filterMap fun
    | .binding b => some b
    | _ => none

/-- The tokens outside of every construct, newlines and separators with them. -/
def dropped (f : File) : List Token :=
  Tree.significant f.children

end File

end VoiceScript
