import VoiceScript.Lexeme

namespace VoiceScript

/-- What the place in the line lets a token be: all that a tokenizer remembers of the text before it. -/
structure Mode where
  /-- No colon so far on the line: names are spoken words. -/
  inPattern : Bool
  /-- Nothing but spaces, tabs and carriage returns so far on the line. -/
  atLineStart : Bool
  deriving DecidableEq

namespace Mode

/-- The mode at the start of a line. -/
def initial : Mode :=
  ⟨true, true⟩

/-- The flags as the bits of a number: the pattern is the lowest bit, the line start the next. -/
def toBits (mode : Mode) : Nat :=
  mode.inPattern.toNat + 2 * mode.atLineStart.toNat

/-- The flags in the two lowest bits of a number. -/
def ofBits (bits : Nat) : Mode :=
  ⟨bits.testBit 0, bits.testBit 1⟩

/-- The bits tell the mode. -/
theorem ofBits_toBits (mode : Mode) : ofBits mode.toBits = mode := by
  rcases mode with ⟨_ | _, _ | _⟩ <;> rfl

/-- The mode after a token. -/
def after (mode : Mode) : TokenKind → Mode
  | .whitespace => mode
  | .newline => initial
  | .separator => ⟨true, false⟩
  | .punct .colon => ⟨false, false⟩
  | _ => { mode with atLineStart := false }

/-- How far a separator line goes after its first dash: at least two more dashes, then blanks up to
the end of the line. -/
def separatorTail? (cs : List Char) : Option Nat :=
  let dashes := Lexeme.run (· == '-') cs
  let blanks := Lexeme.run Lexeme.isHorizontal (cs.drop dashes)
  match cs.drop (dashes + blanks) with
  | [] | '\n' :: _ => if 2 ≤ dashes then some (dashes + blanks) else none
  | _ => none

/-- How far a list reference goes after its opening brace: to the first closing brace, which must
stand on the same line with a dot before it. -/
def listRefTail? (cs : List Char) : Option Nat :=
  let name := cs.takeWhile fun c => c != '\n' && c != '\x7d'
  match cs.drop name.length with
  | '\x7d' :: _ => if name.contains '.' then some (name.length + 1) else none
  | _ => none

/-- The actions whose names need no dot. -/
def bareActions : List String :=
  ["insert", "sleep", "print"]

/-- What the name of any other action starts with. -/
def actionSpaces : List String :=
  ["user.", "app.", "win.", "edit.", "key.", "mouse."]

def isAction (name : List Char) : Bool :=
  bareActions.any (fun action => action.toList == name)
    || actionSpaces.any fun space => space.toList.isPrefixOf name

/-- What a name is: a keyword if it spells one, a call if a parenthesis follows, a reference if it
has a dot, otherwise a plain name. -/
def classify (mode : Mode) (name : List Char) (called : Bool) : TokenKind :=
  match Keyword.ofWord? name with
  | some keyword => .keyword keyword
  | none =>
    if called then if isAction name then .actionName else .functionName
    else if name.contains '.' then .variableRef
    else if mode.inPattern then .word
    else .identifier

theorem classify_kind (mode : Mode) (name : List Char) (called : Bool) :
    (∃ keyword, mode.classify name called = .keyword keyword) ∨
      mode.classify name called ∈ [.actionName, .functionName, .variableRef, .word, .identifier] := by
  unfold classify
  split
  · exact .inl ⟨_, rfl⟩
  · right
    repeat' split
    all_goals simp

/-- The piece at the front of `c :: cs` as the mode has it. -/
def refine (mode : Mode) (c : Char) (cs : List Char) (lexeme : Lexeme) : Lexeme :=
  match lexeme.kind with
  | .punct .dash =>
    match if mode.atLineStart then separatorTail? cs else none with
    | some more => ⟨.separator, more⟩
    | none => lexeme
  | .punct .braceOpen =>
    match if mode.inPattern then listRefTail? cs else none with
    | some more => ⟨.listRef, more⟩
    | none => lexeme
  | .identifier =>
    let called := (cs.drop lexeme.more).head? == some '('
    ⟨mode.classify (c :: cs.take lexeme.more) called, lexeme.more⟩
  | _ => lexeme

/-- The piece at the front of `c :: cs`. A character that starts none is a piece of its own. -/
def lexeme (mode : Mode) (c : Char) (cs : List Char) : Lexeme :=
  match Lexeme.front? c cs with
  | some lexeme => mode.refine c cs lexeme
  | none => ⟨.invalidChar, 0⟩

theorem separatorTail?_le {cs : List Char} {more : Nat} (h : separatorTail? cs = some more) :
    more ≤ cs.length := by
  have hdashes := Lexeme.run_le (· == '-') cs
  have hblanks := Lexeme.run_le Lexeme.isHorizontal (cs.drop (Lexeme.run (· == '-') cs))
  rw [List.length_drop] at hblanks
  simp only [separatorTail?] at h
  split at h
  · obtain ⟨_, h⟩ := Option.ite_none_right_eq_some.mp h
    cases h
    omega
  · obtain ⟨_, h⟩ := Option.ite_none_right_eq_some.mp h
    cases h
    omega
  · cases h

theorem listRefTail?_le {cs : List Char} {more : Nat} (h : listRefTail? cs = some more) :
    more ≤ cs.length := by
  simp only [listRefTail?] at h
  split at h
  · rename_i rest hdrop
    obtain ⟨_, h⟩ := Option.ite_none_right_eq_some.mp h
    cases h
    have hlength := congrArg List.length hdrop
    simp only [List.length_drop, List.length_cons] at hlength
    omega
  · cases h

theorem refine_more_le {mode : Mode} {c : Char} {cs : List Char} {lexeme : Lexeme}
    (h : lexeme.more ≤ cs.length) : (mode.refine c cs lexeme).more ≤ cs.length := by
  unfold refine
  split
  · split
    · rename_i more htail
      exact separatorTail?_le (Option.ite_none_right_eq_some.mp htail).2
    · exact h
  · split
    · rename_i more htail
      exact listRefTail?_le (Option.ite_none_right_eq_some.mp htail).2
    · exact h
  · exact h
  · exact h

/-- A piece fits into the text. -/
theorem lexeme_more_le (mode : Mode) (c : Char) (cs : List Char) :
    (mode.lexeme c cs).more ≤ cs.length := by
  unfold lexeme
  split
  · rename_i found hfront
    exact refine_more_le (Lexeme.front?_more_le hfront)
  · exact Nat.zero_le _

end Mode

end VoiceScript
