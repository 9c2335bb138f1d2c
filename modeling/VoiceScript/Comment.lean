import VoiceScript.Outline

namespace VoiceScript.Comment

/-- A line as a comment: the comment sign goes in front of the first character that is not blank. A blank
line stays as it is. -/
def comment (line : List Char) : List Char :=
  if Outline.isBlank line then line else Text.indent line ++ '#' :: ' ' :: Text.trimStart line

/-- Takes a comment sign off, with the space after it. -/
def strip : List Char → List Char
  | '#' :: ' ' :: cs => cs
  | '#' :: cs => cs
  | cs => cs

/-- A line without its comment sign. -/
def uncomment (line : List Char) : List Char :=
  Text.indent line ++ strip (Text.trimStart line)

def toggle (line : List Char) : List Char :=
  if Outline.isCommented line then uncomment line else comment line

/-- The lines to comment on or off. -/
inductive Request where
  | line (n : Nat)
  /-- The line of each caret. -/
  | carets (lines : List Nat)
  /-- All lines between two bounds, in either order. -/
  | selection (a b : Nat)
  /-- The whole rule around a line, all one way. -/
  | rule (n : Nat)
  /-- The whole rule from its header line, otherwise the line alone. -/
  | smart (n : Nat)

/-- What happens to a line. -/
inductive Direction where
  | toggle
  | comment
  | uncomment
  deriving DecidableEq

def Direction.edit : Direction → List Char → List Char
  | toggle => Comment.toggle
  | comment => Comment.comment
  | uncomment => Comment.uncomment

/-- A line to edit, and how. -/
structure Edit where
  line : Nat
  direction : Direction
  deriving DecidableEq

/-- A request for a line that the text does not have. -/
structure OutOfRange where
  line : Nat
  lineCount : Nat
  deriving DecidableEq

def OutOfRange.message (e : OutOfRange) : String :=
  let line := toString e.line
  let count := toString e.lineCount
  s!"line {line} is out of range (document has {count} lines)"

def checkLine (lines : List Line) (n : Nat) : Except OutOfRange Unit :=
  if n < lines.length then .ok () else .error ⟨n, lines.length⟩

/-- A rule that is a comment as a whole: its header, and the indented lines below it. -/
def commentedRule (lines : List Line) (n : Nat) : LineRange :=
  let header := (Line.content? lines n).getD []
  if Outline.isCommented header && Outline.isHeader (uncomment header) then
    let below := (lines.drop (n + 1)).takeWhile fun line =>
      !Outline.isBlank line.content && Outline.isIndented line.content
    ⟨n, n + below.length⟩
  else .single n

/-- The edits of the rule around a line, all of it the way that its first line goes. -/
def ruleEdits (lines : List Line) (n : Nat) : List Edit :=
  let rule := (Outline.findRule? lines n).getD (commentedRule lines n)
  let first := (Line.content? lines rule.first).getD []
  let direction : Direction := if Outline.isCommented first then .uncomment else .comment
  rule.lines.map fun m => ⟨m, direction⟩

/-- The edits that a request means, by ascending lines. The first line that is not there ends it. -/
def edits (lines : List Line) : Request → Except OutOfRange (List Edit)
  | .line n => do
    checkLine lines n
    return [⟨n, .toggle⟩]
  | .carets ns =>
    (ns.mergeSort.eraseReps).mapM fun n => do
      checkLine lines n
      return ⟨n, .toggle⟩
  | .selection a b => do
    let selected : LineRange := if a ≤ b then ⟨a, b⟩ else ⟨b, a⟩
    checkLine lines selected.last
    return selected.lines.map fun n => ⟨n, .toggle⟩
  | .rule n => do
    checkLine lines n
    return ruleEdits lines n
  | .smart n => do
    checkLine lines n
    if Outline.isHeader ((Line.content? lines n).getD []) then return ruleEdits lines n
    else return [⟨n, .toggle⟩]

/-- Goes through the lines from a number on, with the edits that are still to make. Only the first of these
is looked at. -/
def merge (n : Nat) : List Line → List Edit → List Line
  | [], _ => []
  | line :: lines, [] => line :: merge (n + 1) lines []
  | line :: lines, edit :: edits =>
    if edit.line = n then
      { line with content := edit.direction.edit line.content } :: merge (n + 1) lines edits
    else line :: merge (n + 1) lines (edit :: edits)

/-- Does what a request asks of a text. Every line keeps its end. -/
def apply (source : List Char) (request : Request) : Except OutOfRange (List Char) := do
  let lines := Line.ofText source
  return Line.join (merge 0 lines (← edits lines request))

end VoiceScript.Comment

namespace VoiceScript.Editing

/-- A step of an editing session. -/
inductive Step where
  | comment (request : Comment.Request)
  /-- Puts a new document in place of the old. -/
  | set (text : List Char)
  | append (text : List Char)

/-- The document after a step. -/
def step (document : List Char) : Step → Except Comment.OutOfRange (List Char)
  | .comment request => Comment.apply document request
  | .set text => .ok text
  | .append text => .ok (document ++ text)

/-- What a step gives, and the document after it. A request that fails leaves the document as it was. -/
structure Outcome where
  result : Except Comment.OutOfRange (List Char)
  document : List Char

def Outcome.ofStep (document : List Char) (s : Step) : Outcome :=
  let result := step document s
  ⟨result, result.toOption.getD document⟩

/-- What each step of a session gives. -/
def run (document : List Char) : List Step → List Outcome
  | [] => []
  | s :: steps =>
    let outcome := Outcome.ofStep document s
    outcome :: run outcome.document steps

end VoiceScript.Editing
