import VoiceScript.Diagnostic
import VoiceScript.Parser.Grammar
import VoiceScript.Text.Quoted
import VoiceScript.Tokenizer
import VoiceScript.Tree

namespace VoiceScript

namespace Literal

/-- Whether what follows the opening of a literal ends with its closing character, and has none
before. Where a backslash escapes, the character after it closes nothing. -/
def isClosed (close : Char) (escapes : Bool) : List Char → Bool
  | [] => false
  | [c] => c == close && !(escapes && c == '\\')
  | c :: d :: cs =>
    if escapes && c == '\\' then isClosed close escapes cs
    else if c == close then false
    else isClosed close escapes (d :: cs)

/-- The literal that a token should be and is not. -/
def unclosed? (token : Token) : Option Problem :=
  let body := token.text.tail
  match token.kind with
  | .string => if isClosed '"' true body then none else some .unterminatedString
  | .capture => if isClosed '>' false body then none else some .unclosedCapture
  | .regex => if isClosed '$' true body then none else some .unterminatedRegex
  | _ => none

/-- What is wrong with a token on its own. -/
def diagnostic? (token : Token) : Option Diagnostic :=
  if token.kind = .invalidChar then
    let shown := String.ofList (token.text.flatMap Text.escapeAlone)
    some (.withDetail .invalidCharacter token.span shown)
  else (unclosed? token).map fun problem => .ofProblem problem token.span

end Literal

/-- The tree of a source text, and what is wrong with it. The problems of single tokens come first, then those
of tokens outside of every construct, each in the order of the text. -/
structure Parse where
  tree : Tree
  diagnostics : List Diagnostic

/-- The report of dropped tokens. It quotes the source from the first to the last of them. -/
def unrecognized (source : List Char) (span : Span) : Diagnostic :=
  .withDetail .unrecognizedInput span (String.ofList (Text.slice span.start span.stop source))

def parse (source : List Char) : Except Fault Parse := do
  let tokens := tokenize source
  let p ← (Parser.ofTokens tokens).file
  match Tree.ofEvents? p.events with
  | none => .error .unbalanced
  | some tree =>
    let literals := tokens.filterMap Literal.diagnostic?
    return ⟨tree, literals ++ p.reports.reverse.map (unrecognized source)⟩

end VoiceScript
