import VoiceScript.Line

namespace VoiceScript

/-- A run of lines, both ends included. -/
structure LineRange where
  first : Nat
  last : Nat
  deriving DecidableEq

namespace LineRange

def single (n : Nat) : LineRange :=
  ⟨n, n⟩

def isSingle (r : LineRange) : Bool :=
  r.first == r.last

def contains (r : LineRange) (n : Nat) : Bool :=
  r.first ≤ n && n ≤ r.last

/-- The lines of a run, one after the other. -/
def lines (r : LineRange) : List Nat :=
  List.range' r.first (r.last + 1 - r.first)

end LineRange

namespace Outline

def isBlank (line : List Char) : Bool :=
  line.all Text.isBlank

/-- Three or more dashes, with blanks around them at most. -/
def isSeparator (line : List Char) : Bool :=
  let trimmed := Text.trim line
  3 ≤ trimmed.length && trimmed.all (· == '-')

def isCommented (line : List Char) : Bool :=
  (Text.trimStart line).head? == some '#'

/-- Whether a line opens a rule: it ends in a colon and is no comment. -/
def isHeader (line : List Char) : Bool :=
  (Text.trim line).getLast? == some ':' && !isCommented line

def isIndented (line : List Char) : Bool :=
  line.head?.any Text.isBlank

/-- Whether a line belongs to the rule above it: it is indented and no header, or a comment at the
margin. -/
def isBody (line : List Char) : Bool :=
  !isBlank line && !isSeparator line
    && (line.head? == some '#' || isIndented line && !isHeader line)

/-- The number of lines at the front that belong to the body of a rule. -/
def bodyLength (lines : List Line) : Nat :=
  (lines.takeWhile fun line => isBody line.content).length

/-- The rule whose header is a line. -/
def ruleAt (lines : List Line) (header : Nat) : LineRange :=
  ⟨header, header + bodyLength (lines.drop (header + 1))⟩

/-- The number of lines from the first up to the first header, going through lines from bottom to
top. Neither a blank line nor a separator may come before it. -/
def headerDistance? : List Line → Option Nat
  | [] => none
  | line :: above =>
    if isHeader line.content then some 0
    else if isBlank line.content || isSeparator line.content then none
    else (headerDistance? above).map (· + 1)

/-- The rule that a line is in: that of the first header at or above the line, if its body goes on
as far as the line. -/
def findRule? (lines : List Line) (n : Nat) : Option LineRange :=
  if n < lines.length then
    match headerDistance? (lines.take (n + 1)).reverse with
    | none => none
    | some distance =>
      let rule := ruleAt lines (n - distance)
      if rule.contains n then some rule else none
  else none

/-- The rule that a line is in, or else the line alone. -/
def ruleOrLine (lines : List Line) (n : Nat) : LineRange :=
  (findRule? lines n).getD (.single n)

/-- The numbers of all header lines. -/
def headers (lines : List Line) : List Nat :=
  (lines.zipIdx.filter fun (line, _) => isHeader line.content).map Prod.snd

/-- All rules, from top to bottom. -/
def rules (lines : List Line) : List LineRange :=
  (headers lines).map (ruleAt lines)

end Outline

end VoiceScript
