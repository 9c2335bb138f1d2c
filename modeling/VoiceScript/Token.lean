import VoiceScript.Kind
import VoiceScript.Text.Bytes

namespace VoiceScript

/-- A part of a text, from one byte offset up to another. -/
structure Span where
  start : Nat
  stop : Nat
  deriving DecidableEq

/-- The smallest span that holds two spans. -/
def Span.cover (a b : Span) : Span :=
  ⟨min a.start b.start, max a.stop b.stop⟩

/-- A piece of a source text. It knows its own text, so where it ends follows from where it starts. -/
structure Token where
  kind : TokenKind
  start : Nat
  text : List Char
  deriving DecidableEq

namespace Token

def stop (token : Token) : Nat :=
  token.start + Text.byteLength token.text

def span (token : Token) : Span :=
  ⟨token.start, token.stop⟩

def isTrivia (token : Token) : Bool :=
  token.kind.isTrivia

/-- The text that a row of tokens spells. -/
def spelling (tokens : List Token) : List Char :=
  tokens.flatMap text

@[simp] theorem spelling_nil : spelling [] = [] := rfl

@[simp] theorem spelling_cons (token : Token) (tokens : List Token) :
    spelling (token :: tokens) = token.text ++ spelling tokens := rfl

@[simp] theorem spelling_append (before after : List Token) :
    spelling (before ++ after) = spelling before ++ spelling after :=
  List.flatMap_append

theorem start_lt_stop {token : Token} (h : token.text ≠ []) : token.start < token.stop := by
  have := Text.byteLength_pos h
  simp only [stop]
  omega

end Token

end VoiceScript
