import VoiceScript.Cli.Invocation
import VoiceScript.Cli.Json
import VoiceScript.Diagnostic.Snippet
import VoiceScript.Fold
import VoiceScript.Parse

namespace VoiceScript.Cli

/-- How a run ends. -/
structure Outcome where
  exit : Nat
  stdout : List Char
  stderr : List Char
  deriving DecidableEq

namespace Outcome

def print (text : List Char) : Outcome :=
  ⟨0, text, []⟩

/-- A run that ends with an error. -/
def fail (message : String) : Outcome :=
  ⟨1, [], "error: ".toList ++ message.toList ++ ['\n']⟩

end Outcome

/-- What the parser of the command line makes of it. -/
inductive Taken where
  | asked (verb : Verb) (given : Given)
  /-- It has ended the run itself: with a help text, or with a usage error. -/
  | ended (outcome : Outcome)
  deriving DecidableEq

/-- The system that a run reads from and writes to. An operation that fails gives the reason. -/
structure System (m : Type → Type) where
  readFile : String → m (Except String (List Char))
  readStdin : m (Except String (List Char))
  writeFile : String → List Char → m (Except String Unit)
  /-- Whether both outputs go to a terminal. -/
  terminal : Bool

variable {m : Type → Type} [Monad m]

/-- The text of a source. A text that is given itself goes before any path. -/
def Source.load (sys : System m) (source : Source) : m (Except LoadError (List Char)) :=
  match source.text, source.path with
  | some text, _ => return .ok text
  | none, none => return .error .missing
  | none, some path => do
    if path = "-" then return (← sys.readStdin).mapError .stdin
    else return (← sys.readFile path).mapError (.file path)

def line (text : List Char) : List Char :=
  text ++ ['\n']

def bool (b : Bool) : List Char :=
  (if b then "true" else "false").toList

/-- Diagnostics with their source lines, if there are any. -/
def report (source : Source) (text : List Char) (colored : Bool) (ds : List Diagnostic) :
    List Char :=
  if ds.isEmpty then [] else line (Snippet.render text (some source.label) colored ds).toList

/-- Does something with a parse. The parser fails none of its checks. -/
def withParse (text : List Char) (run : Parse → Outcome) : Outcome :=
  match parse text with
  | .ok p => run p
  | .error _ => .fail "the parser failed a check"

def ast (source : Source) (text : List Char) (options : Dump.Options) (colored : Bool) : Outcome :=
  withParse text fun p =>
    ⟨0, dump options p.tree, report source text colored p.diagnostics⟩

/-- Fails if there is an error, or a warning and warnings count. -/
def check (source : Source) (text : List Char) (strict colored : Bool) : Outcome :=
  withParse text fun p =>
    let failed := Diagnostic.hasErrors p.diagnostics
      || strict && Diagnostic.hasWarnings p.diagnostics
    ⟨failed.toNat, [], report source text colored p.diagnostics⟩

def tokenLine (token : Token) : List Char :=
  line (token.kind.name.toList ++ ' ' :: Text.decimal token.start ++ "..".toList
    ++ Text.decimal token.stop ++ ' ' :: Text.quoted token.text)

/-- Where a tokenizer stands, for a later run to go on from. -/
def placeLine (t : Tokenizer) : List Char :=
  line ("# offset ".toList ++ Text.decimal t.offset ++ " state ".toList
    ++ Text.decimal t.mode.toBits ++ " (command pattern: ".toList ++ bool t.mode.inPattern
    ++ ", line start: ".toList ++ bool t.mode.atLineStart ++ [')'])

def tokenJson (token : Token) : Json :=
  .record
    [("kind", .string token.kind.name.toList), ("start", .number token.start),
      ("end", .number token.stop), ("text", .string token.text)]

def tokens (text : List Char) (start : Nat) (stop : Option Nat) (mode : Mode) (json : Bool) :
    Outcome :=
  let t := Tokenizer.within text start (stop.getD (Text.byteLength text)) mode
  .print <|
    if json then
      line <| Json.pretty <| .record
        [("tokens", .list (t.tokens.map tokenJson)), ("offset", .number t.finish.offset),
          ("state", .number t.finish.mode.toBits)]
    else t.tokens.flatMap tokenLine ++ placeLine t.finish

def foldLine (lines : List Line) (fold : Fold) : List Char :=
  line (Text.decimal fold.span.start ++ "..".toList ++ Text.decimal fold.span.stop
    ++ " line ".toList ++ Text.decimal (Line.ofOffset lines fold.span.start)
    ++ ' ' :: Text.quoted fold.placeholder.text.toList)

def foldJson (lines : List Line) (fold : Fold) : Json :=
  .record
    [("start", .number fold.span.start), ("end", .number fold.span.stop),
      ("line", .number (Line.ofOffset lines fold.span.start)),
      ("placeholder", .string fold.placeholder.text.toList)]

def printFolds (text : List Char) (json : Bool) (folds : List Fold) : Outcome :=
  let lines := Line.ofText text
  .print <|
    if json then line (Json.pretty (.list (folds.map (foldJson lines))))
    else folds.flatMap (foldLine lines)

def fold (text : List Char) (fromLines json : Bool) : Outcome :=
  if fromLines then printFolds text json (Fold.ofLines text)
  else withParse text fun p => printFolds text json (Fold.ofTree p.tree)

def range (r : LineRange) : List Char :=
  Text.decimal r.first ++ "..=".toList ++ Text.decimal r.last

/-- The rule a line is in, or the line alone with a remark. -/
def rule (text : List Char) (n : Nat) : Outcome :=
  .print <| line <|
    match Outline.findRule? (Line.ofText text) n with
    | some r => range r
    | none => range (.single n) ++ " (no rule)".toList

/-- How a run ends that has written to a file. -/
def written (path : String) : Except String Unit → Outcome
  | .error reason => .fail s!"failed to write '{path}': {reason}"
  | .ok () => .print []

/-- Prints the edited text, or puts it into the file that the source came from. -/
def comment (sys : System m) (source : Source) (text : List Char) (request : Comment.Request)
    (write : Bool) : m Outcome :=
  match Comment.apply text request with
  | .error e => return .fail e.message
  | .ok output =>
    if write then
      match source.filePath? with
      | none => return .fail "--write needs a FILE argument"
      | some path => do return written path (← sys.writeFile path output)
    else return .print output

def Action.run (sys : System m) (source : Source) (text : List Char) : Action → m Outcome
  | .ast options colored => return Cli.ast source text options colored
  | .tokens start stop mode json => return Cli.tokens text start stop mode json
  | .check strict colored => return Cli.check source text strict colored
  | .fold fromLines json => return Cli.fold text fromLines json
  | .rule n => return Cli.rule text n
  | .comment request write => Cli.comment sys source text request write

/-- Loads a source and does something with its text. -/
def Source.run (sys : System m) (source : Source) (action : Action) : m Outcome := do
  match ← source.load sys with
  | .error e => return .fail e.message
  | .ok text => action.run sys source text

/-- The program on a command line, by what is taken from the command line. -/
def run (take : List String → Taken) (sys : System m) (words : List String) : m Outcome :=
  match take words with
  | .ended outcome => return outcome
  | .asked verb given => given.source.run sys (.ofGiven sys.terminal given verb)

end VoiceScript.Cli
