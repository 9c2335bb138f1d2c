import VoiceScript.Diagnostic
import VoiceScript.Line

namespace VoiceScript.Snippet

inductive Style where
  | plain
  /-- Line numbers, bars and the arrow. -/
  | frame
  | title
  /-- What points at the problem. -/
  | level (severity : Severity)
  deriving DecidableEq

/-- A piece of a row in one style. -/
structure Run where
  style : Style
  text : List Char

/-- A row of a report. Colours are put in at the end, so they change nothing else. -/
abbrev Row := List Run

/-- What turns a style on. -/
def Style.code : Style → String
  | plain => ""
  | frame => "\x1b[1m\x1b[94m"
  | title => "\x1b[1m"
  | level .error => "\x1b[1m\x1b[91m"
  | level .warning => "\x1b[1m\x1b[33m"

/-- What turns every style off. -/
def resetCode : String :=
  "\x1b[0m"

def Run.paint (colored : Bool) (run : Run) : List Char :=
  if colored && run.style != .plain && !run.text.isEmpty then
    run.style.code.toList ++ run.text ++ resetCode.toList
  else run.text

def Row.paint (colored : Bool) (row : Row) : List Char :=
  row.flatMap (Run.paint colored)

/-- A character as a source line shows it: a tab takes four columns, controls have their pictures,
joiners vanish, and marks of direction are replaced. -/
def shown (c : Char) : List Char :=
  let n := c.toNat
  if c = '\t' then [' ', ' ', ' ', ' ']
  else if n < 0x20 then [Char.ofNat (0x2400 + n)]
  else if n = 0x7f then ['\u2421']
  else if n = 0x200d then []
  else if (0x202a ≤ n ∧ n ≤ 0x202e) ∨ (0x2066 ≤ n ∧ n ≤ 0x2069) then ['\ufffd']
  else [c]

def shownText (cs : List Char) : List Char :=
  cs.flatMap shown

/-- The number of columns a text takes. -/
def width (cs : List Char) : Nat :=
  (shownText cs).length

/-- The lines that a report can show: all but an empty one after the last newline. -/
def sourceLines (source : List Char) : List Line :=
  let lines := Line.ofText source
  if 1 < lines.length ∧ lines.getLast?.any (·.content.isEmpty) then lines.dropLast else lines

/-- A place in a line. -/
structure Point where
  line : Nat
  /-- The content of the line up to the place. -/
  before : List Char
  /-- Whether the place is beyond the content of the line. -/
  beyond : Bool

/-- The place of an offset. Past the end of the text that is the end of the last line. -/
def Point.ofOffset (lines : List Line) (offset : Nat) : Point :=
  let n := Line.ofOffset lines offset
  let content := (Line.content? lines n).getD []
  let within := offset - Line.startOffset lines n
  ⟨n, Text.takeBytes within content, Text.byteLength content < within⟩

/-- The number of columns before a place. -/
def Point.column (p : Point) : Nat :=
  width p.before

/-- An empty span is shown as that of one byte, where the text has one. -/
def widen (length : Nat) (span : Span) : Span :=
  if span.start = span.stop then ⟨span.start, min (span.start + 1) length⟩ else span

/-- What a report is laid out with. -/
structure Layout where
  severity : Severity
  message : String
  /-- The number of columns of line numbers. -/
  gutter : Nat

namespace Layout

def level (l : Layout) (text : List Char) : Run :=
  ⟨.level l.severity, text⟩

def blank (n : Nat) : Run :=
  ⟨.plain, List.replicate n ' '⟩

def bar : Run :=
  ⟨.frame, ['|']⟩

/-- The message at the head of a report. Its further lines stand below its first. -/
def titleRows (l : Layout) : List Row :=
  let head := l.severity.name
  match l.message.splitOn "\n" with
  | [] => []
  | first :: others =>
    [l.level head.toList, ⟨.title, ": ".toList ++ shownText first.toList⟩]
      :: others.map fun line => [blank (head.length + 2), ⟨.title, shownText line.toList⟩]

/-- Where the problem is, for a reader who has only the path. -/
def arrowRow (l : Layout) (path : String) (start : Point) : Row :=
  let column := start.before.length + start.beyond.toNat + 1
  [blank l.gutter, ⟨.frame, "--> ".toList⟩,
    ⟨.plain, path.toList ++ ':' :: Text.decimal (start.line + 1) ++ ':' :: Text.decimal column⟩]

def emptyRow (l : Layout) : Row :=
  [blank (l.gutter + 1), bar]

/-- The number of a line and a bar. -/
def numberRow (l : Layout) (n : Nat) : Row :=
  let digits := Text.decimal (n + 1)
  [⟨.frame, List.replicate (l.gutter - digits.length) ' ' ++ digits⟩, blank 1, bar]

/-- A text at some distance to what stands before it. An empty text leaves no blanks behind. -/
def spaced (n : Nat) (text : List Char) : Row :=
  if text.isEmpty then [] else [blank n, ⟨.plain, text⟩]

def labelRuns (l : Layout) : Row :=
  [blank 1, l.level l.message.toList]

/-- A line with the place marked below it. -/
def singleRows (l : Layout) (lines : List Line) (start stop : Point) : List Row :=
  let content := shownText ((Line.content? lines start.line).getD [])
  let marks := max (stop.column - start.column) 1
  [l.numberRow start.line ++ spaced 1 content,
    l.emptyRow ++ [blank (start.column + 1), l.level (List.replicate marks '^')] ++ l.labelRuns]

/-- The first of several lines. If all that is shown before the place is blank, a stroke marks it; any
other is marked from below. -/
def firstRows (l : Layout) (lines : List Line) (start : Point) : List Row :=
  let content := shownText ((Line.content? lines start.line).getD [])
  if (shownText start.before).all Text.isBlank then
    [l.numberRow start.line ++ [blank 1, l.level ['/']] ++ spaced 1 content]
  else
    [l.numberRow start.line ++ spaced 3 content,
      l.emptyRow ++ [blank 1, l.level (' ' :: List.replicate (start.column + 1) '_' ++ ['^'])]]

/-- A line with a bar at its left. -/
def barRow (l : Layout) (lines : List Line) (n : Nat) : Row :=
  let content := shownText ((Line.content? lines n).getD [])
  l.numberRow n ++ [blank 1, l.level ['|']] ++ spaced 1 content

/-- The mark below the last of several lines. -/
def lastRow (l : Layout) (stop : Point) : Row :=
  let marks := max (stop.column + stop.beyond.toNat) 1
  l.emptyRow ++ [blank 1, l.level ('|' :: List.replicate marks '_' ++ ['^'])] ++ l.labelRuns

def severalRows (l : Layout) (lines : List Line) (start stop : Point) : List Row :=
  let others := List.range' (start.line + 1) (stop.line - start.line)
  l.firstRows lines start ++ others.map (l.barRow lines) ++ [l.lastRow stop]

end Layout

/-- The rows of a report. -/
def rows (source : List Char) (path : Option String) (d : Diagnostic) : List Row :=
  let lines := sourceLines source
  let span := widen (Text.byteLength source) d.span
  let start := Point.ofOffset lines span.start
  let stop := Point.ofOffset lines span.stop
  let l : Layout := ⟨d.severity, d.message, (Text.decimal (stop.line + 1)).length⟩
  let arrow := path.toList.map fun path => l.arrowRow path start
  let marked := if start.line = stop.line then l.singleRows lines start stop
    else l.severalRows lines start stop
  l.titleRows ++ arrow ++ [l.emptyRow] ++ marked

/-- Diagnostics with their source lines, one report after the other. -/
def render (source : List Char) (path : Option String) (colored : Bool) (ds : List Diagnostic) :
    String :=
  let all := ds.flatMap (rows source path)
  "\n".intercalate (all.map fun row => String.ofList (Row.paint colored row))

end VoiceScript.Snippet
