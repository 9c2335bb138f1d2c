import VoiceScript.Token
import VoiceScript.Text.Quoted

namespace VoiceScript

inductive Severity where
  | error
  | warning
  deriving DecidableEq

def Severity.name : Severity → String
  | error => "error"
  | warning => "warning"

/-- The problems a source text can have, the gravest first. -/
inductive Problem where
  /-- A character that starts no token. -/
  | invalidCharacter
  /-- A string that goes to the end of the text. -/
  | unterminatedString
  /-- A capture that goes to the end of its line. -/
  | unclosedCapture
  /-- A regex that goes to the end of its line. -/
  | unterminatedRegex
  /-- Tokens outside of every construct. -/
  | unrecognizedInput
  deriving DecidableEq

namespace Problem

def all : List Problem :=
  [invalidCharacter, unterminatedString, unclosedCapture, unterminatedRegex, unrecognizedInput]

def name : Problem → String
  | invalidCharacter => "InvalidCharacter"
  | unterminatedString => "UnterminatedString"
  | unclosedCapture => "UnclosedCapture"
  | unterminatedRegex => "UnterminatedRegex"
  | unrecognizedInput => "UnrecognizedInput"

/-- How grave a problem is, the least number for the gravest. -/
def priority (problem : Problem) : Nat :=
  all.idxOf problem

/-- Only a character that starts no token is an error: the parser makes the best of everything else. -/
def severity : Problem → Severity
  | invalidCharacter => .error
  | _ => .warning

/-- The message without any detail. -/
def summary : Problem → String
  | invalidCharacter => "invalid character"
  | unterminatedString => "unterminated string"
  | unclosedCapture => "missing closing `>`"
  | unterminatedRegex => "missing closing `$`"
  | unrecognizedInput => "unrecognized input"

/-- What a message with a detail says before and after it. -/
def frame : Problem → String × String
  | invalidCharacter => ("invalid character `", "`")
  | unrecognizedInput => ("`", "` is not a rule, context header or binding")
  | problem => (problem.summary ++ ": ", "")

/-- The message with a pair of braces for the detail. -/
def template (problem : Problem) : String :=
  problem.frame.1 ++ "\x7b\x7d" ++ problem.frame.2

/-- The message about a detail. -/
def describe (problem : Problem) (detail : String) : String :=
  problem.frame.1 ++ detail ++ problem.frame.2

end Problem

/-- A problem at a place. -/
structure Diagnostic where
  problem : Problem
  span : Span
  message : String
  deriving DecidableEq

namespace Diagnostic

/-- A problem without any detail. -/
def ofProblem (problem : Problem) (span : Span) : Diagnostic :=
  ⟨problem, span, problem.summary⟩

def withDetail (problem : Problem) (span : Span) (detail : String) : Diagnostic :=
  ⟨problem, span, problem.describe detail⟩

/-- A problem about which details came up one after the other. The last one counts. -/
def ofDetails (problem : Problem) (span : Span) (details : List String) : Diagnostic :=
  match details.getLast? with
  | none => ofProblem problem span
  | some detail => withDetail problem span detail

def severity (d : Diagnostic) : Severity :=
  d.problem.severity

def isError (d : Diagnostic) : Bool :=
  d.severity == .error

def isWarning (d : Diagnostic) : Bool :=
  d.severity == .warning

/-- A diagnostic on one line. -/
def display (d : Diagnostic) : String :=
  let start := String.ofList (Text.decimal d.span.start)
  let stop := String.ofList (Text.decimal d.span.stop)
  s!"{d.severity.name} at {start}..{stop}: {d.message}"

def hasErrors (ds : List Diagnostic) : Bool :=
  ds.any isError

def hasWarnings (ds : List Diagnostic) : Bool :=
  ds.any isWarning

def errorCount (ds : List Diagnostic) : Nat :=
  ds.countP isError

def warningCount (ds : List Diagnostic) : Nat :=
  ds.countP isWarning

/-- Diagnostics with the gravest first, equally grave ones in their order. -/
def byPriority (ds : List Diagnostic) : List Diagnostic :=
  ds.mergeSort fun a b => a.problem.priority ≤ b.problem.priority

/-- Diagnostics one to a line. -/
def plain (ds : List Diagnostic) : String :=
  "\n".intercalate (ds.map display)

end Diagnostic

end VoiceScript
