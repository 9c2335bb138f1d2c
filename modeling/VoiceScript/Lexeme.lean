import VoiceScript.Kind
import VoiceScript.Text.Classes

namespace VoiceScript

/-- A piece recognised at the front of a text: its kind, and the number of characters it takes after
the first. -/
structure Lexeme where
  kind : TokenKind
  more : Nat
  deriving DecidableEq

namespace Lexeme

/-- A blank that does not end the line. -/
def isHorizontal (c : Char) : Bool :=
  c == ' ' || c == '\t' || c == '\r'

def isDigit (c : Char) : Bool :=
  '0' ≤ c && c ≤ '9'

def isNameStart (c : Char) : Bool :=
  c == '_' || Text.isLetter c

def isNamePart (c : Char) : Bool :=
  c == '_' || c == '.' || c == '-' || Text.isLetter c || Text.isNumeral c

def isPathPart (c : Char) : Bool :=
  c != '\n' && c != '"' && c != ')' && c != ','

/-- The length of the longest front part whose characters all pass a test. -/
def run (test : Char → Bool) (cs : List Char) : Nat :=
  (cs.takeWhile test).length

/-- How far a string goes after its opening quote: to the first quote that no backslash escapes, or
to the end of the text. -/
def stringTail : List Char → Nat
  | [] => 0
  | '"' :: _ => 1
  | '\\' :: _ :: cs => 2 + stringTail cs
  | _ :: cs => 1 + stringTail cs

/-- How far a capture goes after its opening: to the first `>`, or to the end of the line. -/
def captureTail : List Char → Nat
  | [] => 0
  | '>' :: _ => 1
  | '\n' :: _ => 0
  | _ :: cs => 1 + captureTail cs

/-- How far a regex goes after its opening: to the first `$` that no backslash escapes, or to the end
of the line. -/
def regexTail : List Char → Nat
  | [] => 0
  | '$' :: _ => 1
  | '\n' :: _ => 0
  | '\\' :: '\n' :: _ => 1
  | '\\' :: _ :: cs => 2 + regexTail cs
  | _ :: cs => 1 + regexTail cs

/-- The piece at the front of the text `c :: cs`, if a piece starts with `c`. A slash starts a path
only in front of a character that can be part of a name. -/
def front? (c : Char) (cs : List Char) : Option Lexeme :=
  if isHorizontal c then some ⟨.whitespace, run isHorizontal cs⟩
  else if c = '\n' then some ⟨.newline, 0⟩
  else if c = '#' then some ⟨.comment, run (· != '\n') cs⟩
  else if c = '"' then some ⟨.string, stringTail cs⟩
  else if isDigit c then some ⟨.number, run (fun d => isDigit d || d == '.') cs⟩
  else if c = '<' then some ⟨.capture, captureTail cs⟩
  else if c = '^' then some ⟨.regex, regexTail cs⟩
  else if c = '/' then
    match cs with
    | [] => none
    | d :: ds => if isNamePart d then some ⟨.path, 1 + run isPathPart ds⟩ else none
  else if isNameStart c then some ⟨.identifier, run isNamePart cs⟩
  else (Punct.ofChar? c).map fun punct => ⟨.punct punct, 0⟩

/-- The pieces, by their first character. -/
inductive Front : Char → List Char → Lexeme → Prop
  | whitespace {c : Char} (h : isHorizontal c = true) (cs : List Char) :
      Front c cs ⟨.whitespace, run isHorizontal cs⟩
  | newline (cs : List Char) : Front '\n' cs ⟨.newline, 0⟩
  | comment (cs : List Char) : Front '#' cs ⟨.comment, run (· != '\n') cs⟩
  | string (cs : List Char) : Front '"' cs ⟨.string, stringTail cs⟩
  | number {c : Char} (h : isDigit c = true) (cs : List Char) :
      Front c cs ⟨.number, run (fun d => isDigit d || d == '.') cs⟩
  | capture (cs : List Char) : Front '<' cs ⟨.capture, captureTail cs⟩
  | regex (cs : List Char) : Front '^' cs ⟨.regex, regexTail cs⟩
  | path {d : Char} (h : isNamePart d = true) (ds : List Char) :
      Front '/' (d :: ds) ⟨.path, 1 + run isPathPart ds⟩
  | name {c : Char} (h : isNameStart c = true) (cs : List Char) :
      Front c cs ⟨.identifier, run isNamePart cs⟩
  | punct (punct : Punct) (cs : List Char) : Front punct.char cs ⟨.punct punct, 0⟩

theorem front_of_front? {c : Char} {cs : List Char} {lexeme : Lexeme}
    (h : front? c cs = some lexeme) : Front c cs lexeme := by
  revert h
  fun_cases front? c cs
  all_goals intro h
  all_goals try cases h
  · exact .whitespace ‹_› cs
  · exact ‹c = '\n'› ▸ .newline cs
  · exact ‹c = '#'› ▸ .comment cs
  · exact ‹c = '"'› ▸ .string cs
  · exact .number ‹_› cs
  · exact ‹c = '<'› ▸ .capture cs
  · exact ‹c = '^'› ▸ .regex cs
  · exact ‹c = '/'› ▸ .path ‹_› _
  · exact .name ‹_› cs
  · obtain ⟨punct, hpunct, rfl⟩ := Option.map_eq_some_iff.mp h
    exact Punct.char_of_ofChar? hpunct ▸ .punct punct cs

/-- The kinds of the pieces. Only the newline character makes a newline. -/
theorem front?_kind {c : Char} {cs : List Char} {lexeme : Lexeme} (h : front? c cs = some lexeme) :
    (lexeme.kind = .newline ∧ c = '\n') ∨ (∃ punct, lexeme.kind = .punct punct) ∨
      lexeme.kind ∈ [.whitespace, .comment, .string, .number, .capture, .regex, .path, .identifier] := by
  cases front_of_front? h with
  | newline => exact .inl ⟨rfl, rfl⟩
  | punct punct => exact .inr (.inl ⟨punct, rfl⟩)
  | _ => exact .inr (.inr (by simp))

theorem run_le (test : Char → Bool) (cs : List Char) : run test cs ≤ cs.length :=
  (List.takeWhile_sublist test).length_le

theorem stringTail_le (cs : List Char) : stringTail cs ≤ cs.length := by
  fun_induction stringTail cs <;> grind

theorem captureTail_le (cs : List Char) : captureTail cs ≤ cs.length := by
  fun_induction captureTail cs <;> grind

theorem regexTail_le (cs : List Char) : regexTail cs ≤ cs.length := by
  fun_induction regexTail cs <;> grind

theorem front?_more_le {c : Char} {cs : List Char} {lexeme : Lexeme} (h : front? c cs = some lexeme) :
    lexeme.more ≤ cs.length := by
  cases front_of_front? h with
  | newline | punct => exact Nat.zero_le _
  | whitespace | comment | number | name => exact run_le _ _
  | string => exact stringTail_le _
  | capture => exact captureTail_le _
  | regex => exact regexTail_le _
  | path h ds =>
    have := run_le isPathPart ds
    simp only [List.length_cons]
    omega

end Lexeme

end VoiceScript
