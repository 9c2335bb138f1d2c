import VoiceScript.Text.Quoted

namespace VoiceScript.Cli

/-- A result, laid out over several lines with two blanks for each level. Fields stand in the order of the
record. -/
inductive Json where
  | number (n : Nat)
  | string (text : List Char)
  | list (items : List Json)
  | record (fields : List (String × Json))

namespace Json

/-- The four hexadecimal digits of a control character. -/
def hexDigits (c : Char) : List Char :=
  let digits := Nat.toDigits 16 c.toNat
  List.replicate (4 - digits.length) '0' ++ digits

/-- A character inside a string. Only quotes, backslashes and controls below the space are escaped. -/
def escape (c : Char) : List Char :=
  if c = '"' ∨ c = '\\' then ['\\', c]
  else if c = '\n' then ['\\', 'n']
  else if c = '\r' then ['\\', 'r']
  else if c = '\t' then ['\\', 't']
  else if c = '\x08' then ['\\', 'b']
  else if c = '\x0c' then ['\\', 'f']
  else if c.toNat < 0x20 then ['\\', 'u'] ++ hexDigits c
  else [c]

def quote (cs : List Char) : List Char :=
  '"' :: (cs.flatMap escape ++ ['"'])

def newline (depth : Nat) : List Char :=
  '\n' :: List.replicate (2 * depth) ' '

mutual

/-- A value whose first line is already indented. -/
def layout (depth : Nat) : Json → List Char
  | number n => Text.decimal n
  | string text => quote text
  | list [] => ['[', ']']
  | list (item :: items) =>
    '[' :: (newline (depth + 1) ++ layout (depth + 1) item ++ layoutItems (depth + 1) items
      ++ newline depth ++ [']'])
  | record [] => ['\x7b', '\x7d']
  | record ((name, value) :: fields) =>
    '\x7b' :: (newline (depth + 1) ++ quote name.toList ++ [':', ' '] ++ layout (depth + 1) value
      ++ layoutFields (depth + 1) fields ++ newline depth ++ ['\x7d'])

/-- The items of a list after the first. -/
def layoutItems (depth : Nat) : List Json → List Char
  | [] => []
  | item :: items => ',' :: (newline depth ++ layout depth item ++ layoutItems depth items)

/-- The fields of a record after the first. -/
def layoutFields (depth : Nat) : List (String × Json) → List Char
  | [] => []
  | (name, value) :: fields =>
    ',' :: (newline depth ++ quote name.toList ++ [':', ' '] ++ layout depth value
      ++ layoutFields depth fields)

end

/-- A value in print. -/
def pretty (value : Json) : List Char :=
  layout 0 value

end Json

end VoiceScript.Cli
