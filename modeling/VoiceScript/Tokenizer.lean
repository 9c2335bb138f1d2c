import VoiceScript.Mode
import VoiceScript.Token

namespace VoiceScript

/-- A place in a text: the offset, the mode there, and the text still to be cut. A host can stop after any
token and go on later from here, or on another text. -/
structure Tokenizer where
  offset : Nat
  mode : Mode
  rest : List Char
  deriving DecidableEq

namespace Tokenizer

/-- Starts inside a text, to end at the offset `stop`. Offsets past the end of the text stand for its
end, and those inside a character for its start. -/
def within (source : List Char) (start stop : Nat) (mode : Mode) : Tokenizer :=
  let text := Text.takeBytes stop source
  ⟨Text.byteLength (Text.takeBytes start text), mode, Text.dropBytes start text⟩

/-- Starts at the front of a text. -/
def ofText (source : List Char) : Tokenizer :=
  ⟨0, .initial, source⟩

/-- The next token, and the tokenizer after it. -/
def next? (t : Tokenizer) : Option (Token × Tokenizer) :=
  match t.rest with
  | [] => none
  | c :: cs =>
    let lexeme := t.mode.lexeme c cs
    let token : Token := ⟨lexeme.kind, t.offset, c :: cs.take lexeme.more⟩
    some (token, ⟨token.stop, t.mode.after token.kind, cs.drop lexeme.more⟩)

/-- A token takes as many characters as its piece has, all of which are there. -/
theorem next?_length {t u : Tokenizer} {token : Token} (h : t.next? = some (token, u)) :
    ∃ c cs, t.rest = c :: cs ∧ token.text.length = (t.mode.lexeme c cs).more + 1 ∧
      token.text.length + u.rest.length = t.rest.length := by
  unfold next? at h
  split at h
  · cases h
  · rename_i c cs hr
    cases h
    have hfits := t.mode.lexeme_more_le c cs
    refine ⟨c, cs, hr, ?_⟩
    simp only [hr, List.length_cons, List.length_take, List.length_drop]
    omega

/-- A token takes characters from the text. -/
theorem next?_rest_lt {t u : Tokenizer} {token : Token} (h : t.next? = some (token, u)) :
    u.rest.length < t.rest.length := by
  obtain ⟨c, cs, _, hpiece, hall⟩ := next?_length h
  omega

/-- The token spells what the tokenizer went over. -/
theorem next?_text {t u : Tokenizer} {token : Token} (h : t.next? = some (token, u)) :
    token.text ++ u.rest = t.rest := by
  unfold next? at h
  split at h
  · cases h
  · rename_i c cs hr
    cases h
    rw [hr, List.cons_append, List.take_append_drop]

/-- Each token to the end of the text, with the tokenizer after it. -/
def steps (t : Tokenizer) : List (Token × Tokenizer) :=
  match _h : t.next? with
  | none => []
  | some (token, u) => (token, u) :: u.steps
termination_by t.rest.length
decreasing_by exact next?_rest_lt _h

/-- The tokens to the end of the text. -/
def tokens (t : Tokenizer) : List Token :=
  t.steps.map Prod.fst

/-- The tokens spell the text. -/
theorem spelling_tokens (t : Tokenizer) : Token.spelling t.tokens = t.rest := by
  unfold tokens
  fun_induction steps t with
  | case1 t h =>
    unfold next? at h
    split at h
    · rename_i hr
      exact hr.symm
    · cases h
  | case2 t token u h ih =>
    have ht := next?_text h
    rw [List.map_cons, Token.spelling, List.flatMap_cons]
    rw [← ht, ← ih]
    rfl

/-- The tokenizer at the end of the text. -/
def finish (t : Tokenizer) : Tokenizer :=
  (t.steps.getLast?.map Prod.snd).getD t

end Tokenizer

/-- The tokens of a whole source text. -/
def tokenize (source : List Char) : List Token :=
  (Tokenizer.ofText source).tokens

end VoiceScript
