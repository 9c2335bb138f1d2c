import VoiceScript.Tokenizer

namespace VoiceScript.Tokenizer

/-- What a host keeps between two steps: the text, a place in it, and the places it saved. It makes the
tokenizer anew from them. -/
structure Session where
  text : List Char
  offset : Nat
  stop : Nat
  mode : Mode
  saved : List (Nat × Mode)

/-- What a host does next. -/
inductive Session.Step where
  /-- Asks for so many tokens. -/
  | next (count : Nat)
  /-- Asks for tokens to the end of the line. -/
  | line
  /-- Asks for all remaining tokens. -/
  | rest
  | save
  /-- Goes to the place saved in a slot, to end at the end of the text. -/
  | load (slot : Nat)
  | restart (start stop : Option Nat) (mode : Mode)
  /-- Puts another text in place of what is left. -/
  | replaceTail (text : List Char)

namespace Session

/-- A token or the end of the text, with the mode after it. -/
abbrev Answer := Option (Token × Mode)

def ofText (text : List Char) : Session :=
  ⟨text, 0, Text.byteLength text, .initial, []⟩

def tokenizer (s : Session) : Tokenizer :=
  Tokenizer.within s.text s.offset s.stop s.mode

/-- The session at the place of a tokenizer. -/
def moveTo (s : Session) (t : Tokenizer) : Session :=
  { s with offset := t.offset, mode := t.mode }

/-- Asks for a token so many times, at the end of the text in vain. -/
def request (t : Tokenizer) : Nat → List Answer × Tokenizer
  | 0 => ([], t)
  | n + 1 =>
    match t.next? with
    | none => let (answers, u) := request t n; (none :: answers, u)
    | some (token, v) => let (answers, u) := request v n; (some (token, v.mode) :: answers, u)

/-- Asks for tokens up to a newline or, in vain, past the end of the text. -/
def requestLine (t : Tokenizer) : List Answer × Tokenizer :=
  match _h : t.next? with
  | none => ([none], t)
  | some (token, v) =>
    if token.kind = .newline then ([some (token, v.mode)], v)
    else let (answers, u) := requestLine v; (some (token, v.mode) :: answers, u)
termination_by t.rest.length
decreasing_by exact next?_rest_lt _h

/-- Takes a step, with what it yields. -/
def step (s : Session) : Step → List Answer × Session
  | .next count => let (answers, t) := request s.tokenizer count; (answers, s.moveTo t)
  | .line => let (answers, t) := requestLine s.tokenizer; (answers, s.moveTo t)
  | .rest =>
    (s.tokenizer.steps.map fun (token, t) => some (token, t.mode), s.moveTo s.tokenizer.finish)
  | .save =>
    let t := s.tokenizer
    ([], { s.moveTo t with saved := s.saved ++ [(t.offset, t.mode)] })
  | .load slot =>
    match s.saved[slot]? with
    | none => ([], s)
    | some (offset, mode) =>
      let stop := Text.byteLength s.text
      ([], { s with stop := stop }.moveTo (Tokenizer.within s.text offset stop mode))
  | .restart start stop mode =>
    let stop := stop.getD (Text.byteLength s.text)
    ([], { s with stop := stop }.moveTo (Tokenizer.within s.text (start.getD 0) stop mode))
  | .replaceTail tail =>
    let t := s.tokenizer
    let text := Text.takeBytes t.offset s.text ++ tail
    ([], { s.moveTo t with text := text, stop := Text.byteLength text })

/-- Takes one step after the other, with what each yields and the session after it. -/
def run (s : Session) : List Step → List (List Answer × Session)
  | [] => []
  | step :: steps => let (answers, t) := s.step step; (answers, t) :: t.run steps

end Session

/-- The place after a token, and what a tokenizer that starts there finds. -/
structure ResumePoint where
  token : Token
  offset : Nat
  mode : Mode
  /-- The tokens found from here. -/
  tokens : List Token

/-- Whether the tokens found are the last ones of a scan of the whole text. -/
def ResumePoint.agrees (point : ResumePoint) (whole : List Token) : Bool :=
  point.tokens == whole.drop (whole.length - point.tokens.length)

/-- The places after all tokens of a text. -/
def resumePoints (source : List Char) : List ResumePoint :=
  let stop := Text.byteLength source
  (ofText source).steps.map fun (token, t) =>
    ⟨token, t.offset, t.mode, (within source t.offset stop t.mode).tokens⟩

end VoiceScript.Tokenizer
