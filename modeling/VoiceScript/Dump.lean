import VoiceScript.Item
import VoiceScript.Text.Quoted

namespace VoiceScript

namespace Dump

/-- What a dump shows. -/
structure Options where
  /-- The whole tree instead of its constructs. -/
  raw : Bool
  /-- Trivia as well, in the whole tree. -/
  trivia : Bool
  /-- The place of everything. -/
  spans : Bool
  deriving DecidableEq

/-- A place in brackets, if places are shown. -/
def place (o : Options) (span : Span) : List Char :=
  if o.spans then
    " [".toList ++ Text.decimal span.start ++ "..".toList ++ Text.decimal span.stop ++ [']']
  else []

/-- A line is indented by two blanks for each node above it. -/
def line (depth : Nat) (content : List Char) : List Char :=
  List.replicate (2 * depth) ' ' ++ content ++ ['\n']

def tokenLine (o : Options) (depth : Nat) (token : Token) : List Char :=
  line depth (token.kind.name.toList ++ place o token.span ++ ' ' :: Text.quoted token.text)

mutual

/-- A node, and below it its children. -/
def tree (o : Options) (depth : Nat) : Tree → List Char
  | .leaf token => if o.trivia || !token.isTrivia then tokenLine o depth token else []
  | .node kind children =>
    line depth (kind.name.toList ++ place o (Tree.node kind children).span)
      ++ trees o (depth + 1) children

def trees (o : Options) (depth : Nat) : List Tree → List Char
  | [] => []
  | t :: ts => tree o depth t ++ trees o depth ts

end

def statement (o : Options) (s : Statement) : List Char :=
  line 2 ("Statement".toList ++ place o s.node.span ++ ' ' :: s.node.text)

def header (o : Options) (h : Header) : List Char :=
  let modifiers := h.modifiers.flatMap fun token => token.text ++ [' ']
  let key := (h.key?.map Token.text).getD []
  let separator := match h.separator? with
    | none => []
    | some token => line 2 ("Separator".toList ++ place o token.span)
  line 1 ("Match".toList ++ place o h.node.span ++ ' ' :: (modifiers ++ key) ++ ": ".toList
    ++ h.valueText) ++ separator

def command (o : Options) (c : Command) : List Char :=
  let rule := match c.rule? with
    | none => []
    | some r => line 2 ("Rule".toList ++ place o r.node.span ++ ' ' :: r.node.text)
  line 1 ("Command".toList ++ place o c.node.span) ++ rule ++ c.statements.flatMap (statement o)

def binding (o : Options) (b : Binding) : List Char :=
  let keyword := (b.keyword?.map Token.text).getD []
  let arguments := (b.arguments?.map fun a => a.node.text).getD []
  line 1 ("Binding".toList ++ place o b.node.span ++ ' ' :: (keyword ++ arguments))
    ++ b.statements.flatMap (statement o)

def item (o : Options) : Item → List Char
  | .header h => header o h
  | .command c => command o c
  | .binding b => binding o b

def file (o : Options) (f : File) : List Char :=
  line 0 ("File".toList ++ place o f.node.span) ++ f.items.flatMap (item o)

end Dump

/-- A tree in print. -/
def dump (o : Dump.Options) (tree : Tree) : List Char :=
  if o.raw then Dump.tree o 0 tree else Dump.file o (.ofTree tree)

end VoiceScript
