import VoiceScript.Comment
import VoiceScript.Dump
import VoiceScript.Mode

namespace VoiceScript.Cli

/-- What can be asked of a source. -/
inductive Verb where
  | ast | tokens | check | fold | rule | comment
  deriving DecidableEq

/-- Where the source text comes from: a path, of which a dash stands for standard input, or the text itself. -/
structure Source where
  path : Option String
  text : Option (List Char)
  deriving DecidableEq

namespace Source

/-- The path of a file, not of standard input. -/
def filePath? (source : Source) : Option String :=
  source.path.filter (· != "-")

/-- The name of a source in reports. -/
def label (source : Source) : String :=
  match source.path, source.text with
  | _, some _ => "<inline>"
  | some path, none => if path = "-" then "<stdin>" else path
  | none, none => ""

end Source

/-- Why there is no source text. -/
inductive LoadError where
  | missing
  | stdin (reason : String)
  | file (path reason : String)

def LoadError.message : LoadError → String
  | missing => "source is required: use a FILE argument or -s/--source"
  | stdin reason => s!"failed to read stdin: {reason}"
  | file path reason => s!"failed to read '{path}': {reason}"

inductive ColorChoice where
  | auto | always | never
  deriving DecidableEq

/-- Whether to colour, by whether both outputs go to a terminal. -/
def ColorChoice.shouldColorize (terminal : Bool) : ColorChoice → Bool
  | auto => terminal
  | always => true
  | never => false

/-- What a command line gives: each argument by its name, where it has been given or has a default. -/
structure Given where
  path : Option String
  text : Option (List Char)
  color : Option String
  raw : Bool
  trivia : Bool
  spans : Bool
  strict : Bool
  json : Bool
  rules : Bool
  write : Bool
  start : Option Nat
  stop : Option Nat
  state : Option Nat
  line : Option Nat
  caret : Option (List Nat)
  selection : Option (List Nat)
  rule : Option Nat
  smart : Option Nat
  deriving DecidableEq

namespace Given

def source (given : Given) : Source :=
  ⟨given.path, given.text⟩

def colorChoice (given : Given) : ColorChoice :=
  match given.color with
  | some "always" => .always
  | some "never" => .never
  | _ => .auto

/-- The lines to comment on or off. Of several ways to name them the first one here counts. -/
def request (given : Given) : Comment.Request :=
  match given.caret, given.selection, given.rule, given.smart with
  | some carets, _, _, _ => .carets carets
  | none, some bounds, _, _ =>
    let first := bounds[0]?.getD 0
    .selection first (bounds[1]?.getD first)
  | none, none, some n, _ => .rule n
  | none, none, none, some n => .smart n
  | none, none, none, none => .line (given.line.getD 0)

end Given

/-- What to do with a source. -/
inductive Action where
  | ast (options : Dump.Options) (colored : Bool)
  | tokens (start : Nat) (stop : Option Nat) (mode : Mode) (json : Bool)
  | check (strict colored : Bool)
  | fold (fromLines json : Bool)
  | rule (line : Nat)
  | comment (request : Comment.Request) (write : Bool)

def Action.ofGiven (terminal : Bool) (given : Given) : Verb → Action
  | .ast =>
    .ast ⟨given.raw, given.trivia, given.spans⟩ (given.colorChoice.shouldColorize terminal)
  | .tokens =>
    .tokens (given.start.getD 0) given.stop (.ofBits (given.state.getD Mode.initial.toBits)) given.json
  | .check => .check given.strict (given.colorChoice.shouldColorize terminal)
  | .fold => .fold given.rules given.json
  | .rule => .rule (given.line.getD 0)
  | .comment => .comment given.request given.write

end VoiceScript.Cli
