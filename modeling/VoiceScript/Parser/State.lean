import VoiceScript.Tree
import VoiceScript.Parser.Ahead

namespace VoiceScript

/-- A check of the parser that failed. -/
inductive Fault where
  /-- A token was to be taken after the last one. -/
  | noToken
  /-- Another token was to come. -/
  | unexpected (expected : TokenKind) (found : Option TokenKind)
  /-- The next token was looked at too often. -/
  | stuck
  /-- The nodes do not nest, or there is not one node over all. -/
  | unbalanced
  deriving DecidableEq

/-- A parser at work. Trivia is set aside when the token behind it is looked at, and written before that token
or before the node that it opens. -/
structure Parser where
  /-- The tokens to come. -/
  rest : List Token
  /-- Trivia set aside, not yet written. -/
  trivia : List Token
  /-- How often the parser may look before it must take a token. -/
  patience : Nat
  /-- Whether a separator is still to come and none has been. -/
  aboveSeparator : Bool
  /-- What was written so far, the latest first. -/
  events : List Event
  /-- Where the tokens lie that were dropped since the last report. -/
  dropped : Option Span
  /-- Where dropped tokens were reported, the latest first. -/
  reports : List Span

namespace Parser

def fullPatience : Nat := 256

/-- A parser before the first token. -/
def ofTokens (tokens : List Token) : Parser :=
  { rest := tokens, trivia := [], patience := fullPatience,
    aboveSeparator := tokens.any fun t => t.kind == .separator,
    events := [], dropped := none, reports := [] }

/-- The kind of the next token. -/
def next? (p : Parser) : Option TokenKind :=
  Ahead.first? p.rest

/-- Sets the coming trivia aside. -/
def skipTrivia (p : Parser) : Parser :=
  { p with
    rest := Ahead.skipTrivia p.rest
    trivia := p.trivia ++ p.rest.takeWhile Token.isTrivia }

/-- Looks at the next token that is no trivia. -/
def look (p : Parser) : Except Fault Parser :=
  if p.patience = 0 then .error .stuck
  else .ok { p.skipTrivia with patience := p.patience - 1 }

/-- Writes the trivia set aside. -/
def writeTrivia (p : Parser) : Parser :=
  { p with events := (p.trivia.map Event.token).reverse ++ p.events, trivia := [] }

/-- Starts a node, after the trivia set aside. -/
def openNode (kind : NodeKind) (p : Parser) : Parser :=
  { p.writeTrivia with events := .start kind :: p.writeTrivia.events }

/-- Ends the innermost node. -/
def closeNode (p : Parser) : Parser :=
  { p with events := .finish :: p.events }

/-- Takes the next token, after the trivia set aside. -/
def bump (p : Parser) : Except Fault Parser :=
  match p.rest with
  | [] => .error .noToken
  | token :: rest =>
    .ok { p.writeTrivia with
      rest := rest
      patience := fullPatience
      aboveSeparator := p.aboveSeparator && token.kind != .separator
      events := .token token :: p.writeTrivia.events }

/-- Takes the next token if it is of a kind. -/
def eat (kind : TokenKind) (p : Parser) : Except Fault Parser := do
  let p ← p.look
  if p.next? = some kind then p.bump else return p

/-- Takes the next token, which must be of a kind. -/
def expect (kind : TokenKind) (p : Parser) : Except Fault Parser := do
  let p ← p.look
  if p.next? = some kind then p.bump else .error (.unexpected kind p.next?)

/-- Ends a run of dropped tokens: they are reported as one. -/
def reportDropped (p : Parser) : Parser :=
  match p.dropped with
  | none => p
  | some span => { p with dropped := none, reports := span :: p.reports }

/-- Makes a token part of the current run of dropped tokens. -/
def addDropped (token : Token) (p : Parser) : Parser :=
  { p with dropped := some (p.dropped.elim token.span fun span => span.cover token.span) }

/-- Takes the next token outside of every construct. Newlines and separators end a run of dropped
tokens, others belong to it. -/
def drop (p : Parser) : Except Fault Parser := do
  let p ← p.look
  match p.rest with
  | [] => .error .noToken
  | token :: _ =>
    if token.kind = .newline ∨ token.kind = .separator then p.reportDropped.bump
    else (p.addDropped token).bump

theorem length_skipTrivia_le (tokens : List Token) :
    (Ahead.skipTrivia tokens).length ≤ tokens.length :=
  (List.dropWhile_sublist _).length_le

theorem bind_ok {α β : Type} {x : Except Fault α} {f : α → Except Fault β} {b : β} :
    (x >>= f) = .ok b ↔ ∃ a, x = .ok a ∧ f a = .ok b := by
  cases x with
  | error fault => exact ⟨nofun, nofun⟩
  | ok a =>
    constructor
    · intro h
      exact ⟨a, rfl, h⟩
    · rintro ⟨_, ⟨⟩, h⟩
      exact h

theorem look_rest_le {p q : Parser} (h : p.look = .ok q) : q.rest.length ≤ p.rest.length := by
  unfold look at h
  split at h
  · cases h
  · cases h
    exact length_skipTrivia_le p.rest

/-- Taking a token leaves one less. -/
theorem bump_rest_lt {p q : Parser} (h : p.bump = .ok q) : q.rest.length < p.rest.length := by
  unfold bump at h
  split at h
  · cases h
  · rename_i hr
    cases h
    rw [hr]
    exact Nat.lt_succ_self _

theorem eat_rest_le {kind : TokenKind} {p q : Parser} (h : p.eat kind = .ok q) :
    q.rest.length ≤ p.rest.length := by
  obtain ⟨r, hl, he⟩ := bind_ok.mp h
  have hr := look_rest_le hl
  split at he
  · have := bump_rest_lt he
    omega
  · cases he
    exact hr

theorem expect_rest_lt {kind : TokenKind} {p q : Parser} (h : p.expect kind = .ok q) :
    q.rest.length < p.rest.length := by
  obtain ⟨r, hl, he⟩ := bind_ok.mp h
  have hr := look_rest_le hl
  split at he
  · have := bump_rest_lt he
    omega
  · cases he

theorem reportDropped_rest (p : Parser) : p.reportDropped.rest = p.rest := by
  unfold reportDropped
  split <;> rfl

theorem drop_rest_lt {p q : Parser} (h : p.drop = .ok q) : q.rest.length < p.rest.length := by
  obtain ⟨r, hl, hd⟩ := bind_ok.mp h
  have hr := look_rest_le hl
  split at hd
  · cases hd
  · split at hd
    · have hb := bump_rest_lt hd
      rw [reportDropped_rest] at hb
      omega
    · have hb := bump_rest_lt hd
      exact Nat.lt_of_lt_of_le hb hr

/-- Takes tokens up to one at which to stop. Running out of tokens is a fault unless it is a reason
to stop. -/
def bumpUntil (stop : Option TokenKind → Bool) (p : Parser) : Except Fault Parser :=
  match _hl : p.look with
  | .error fault => .error fault
  | .ok q =>
    if stop q.next? then .ok q
    else
      match _hb : q.bump with
      | .error fault => .error fault
      | .ok r => r.bumpUntil stop
termination_by p.rest.length
decreasing_by
  have := look_rest_le _hl
  have := bump_rest_lt _hb
  omega

theorem bumpUntil_rest_le {stop : Option TokenKind → Bool} {p q : Parser}
    (h : p.bumpUntil stop = .ok q) : q.rest.length ≤ p.rest.length := by
  fun_induction bumpUntil stop p with
  | case1 => cases h
  | case2 p r hl hs =>
    cases h
    exact look_rest_le hl
  | case3 => cases h
  | case4 p r hl hs s hb ih =>
    have := look_rest_le hl
    have := bump_rest_lt hb
    have := ih h
    omega

end Parser

end VoiceScript
