import VoiceScript.Text.Bytes
import VoiceScript.Text.Classes

namespace VoiceScript

/-- What ends a line. A carriage return before the newline belongs to it. -/
inductive Terminator where
  /-- The end of the text. -/
  | none
  | lf
  | crlf
  deriving DecidableEq

def Terminator.text : Terminator → List Char
  | none => []
  | lf => ['\n']
  | crlf => ['\r', '\n']

theorem Terminator.exists_text_of_ne_none {terminator : Terminator} (h : terminator ≠ .none) :
    ∃ cr, terminator.text = cr ++ ['\n'] ∧ '\n' ∉ cr := by
  cases terminator with
  | none => exact absurd rfl h
  | lf => exact ⟨[], rfl, by simp⟩
  | crlf => exact ⟨['\r'], rfl, by simp⟩

/-- A line of a text. What follows the last newline is a line too, so every text has one. -/
structure Line where
  content : List Char
  terminator : Terminator
  deriving DecidableEq

namespace Line

/-- The text of a line with its end. -/
def text (line : Line) : List Char :=
  line.content ++ line.terminator.text

/-- Puts a character in front of the first line. -/
def push (c : Char) : List Line → List Line
  | [] => [⟨[c], .none⟩]
  | line :: lines => { line with content := c :: line.content } :: lines

/-- The lines of a text, counted from zero. -/
def ofText : List Char → List Line
  | [] => [⟨[], .none⟩]
  | '\n' :: cs => ⟨[], .lf⟩ :: ofText cs
  | '\r' :: '\n' :: cs => ⟨[], .crlf⟩ :: ofText cs
  | c :: cs => push c (ofText cs)

/-- The text that lines make up. -/
def join (lines : List Line) : List Char :=
  lines.flatMap text

/-- The content of a line, if there is one of that number. -/
def content? (lines : List Line) (n : Nat) : Option (List Char) :=
  lines[n]?.map content

/-- The offset of the start of a line. -/
def startOffset (lines : List Line) (n : Nat) : Nat :=
  Text.byteLength (join (lines.take n))

/-- The offset of the end of the content of a line. -/
def contentEnd? (lines : List Line) (n : Nat) : Option Nat :=
  lines[n]?.map fun line => startOffset lines n + Text.byteLength line.content

/-- The line that an offset is in. Past the end of the text that is the last one. -/
def ofOffset : List Line → Nat → Nat
  | [], _ => 0
  | [_], _ => 0
  | line :: next :: lines, offset =>
    let size := Text.byteLength line.text
    if size ≤ offset then ofOffset (next :: lines) (offset - size) + 1 else 0

@[simp] theorem join_nil : join [] = [] := rfl

@[simp] theorem join_cons (line : Line) (lines : List Line) :
    join (line :: lines) = line.text ++ join lines :=
  List.flatMap_cons

theorem join_push (c : Char) (lines : List Line) : join (push c lines) = c :: join lines := by
  cases lines with
  | nil => rfl
  | cons line lines => rfl

/-- Splitting into lines loses nothing. -/
theorem join_ofText (cs : List Char) : join (ofText cs) = cs := by
  fun_induction ofText cs with
  | case1 => rfl
  | case2 cs ih => rw [join_cons, ih]; rfl
  | case3 cs ih => rw [join_cons, ih]; rfl
  | case4 c cs _ _ ih => rw [join_push, ih]

end Line

end VoiceScript
