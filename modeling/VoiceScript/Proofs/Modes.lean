import Mathlib.Data.List.Chain
import VoiceScript.Proofs.Starts

namespace VoiceScript

namespace Mode

variable {mode : Mode} {c : Char} {cs : List Char} {found : Lexeme}

/-- Whether a mode lets a token be of a kind. Of spoken words and names, of lists and of separators the kind
depends on it. -/
def Admits (mode : Mode) : TokenKind → Prop
  | .word | .listRef => mode.inPattern = true
  | .identifier => mode.inPattern = false
  | .separator => mode.atLineStart = true
  | _ => True

theorem admits_classify (mode : Mode) (name : List Char) (called : Bool) :
    mode.Admits (mode.classify name called) := by
  unfold classify
  split
  · trivial
  · split
    · split <;> trivial
    · split
      · trivial
      · split
        · assumption
        · rename_i hpattern
          exact Bool.eq_false_iff.mpr hpattern

theorem admits_front (mode : Mode) (h : Lexeme.front? c cs = some found)
    (hname : found.kind ≠ .identifier) : mode.Admits found.kind := by
  rcases Lexeme.front?_kind h with ⟨hk, _⟩ | ⟨punct, hk⟩ | hk
  · rw [hk]
    trivial
  · rw [hk]
    trivial
  · generalize found.kind = kind at hname hk ⊢
    simp only [List.mem_cons, List.not_mem_nil, hname, or_false] at hk
    rcases hk with rfl | rfl | rfl | rfl | rfl | rfl | rfl <;> trivial

theorem admits_refine (h : Lexeme.front? c cs = some found) :
    mode.Admits (mode.refine c cs found).kind := by
  unfold refine
  split
  · rename_i hk
    split
    · rename_i more hmore
      split at hmore
      · assumption
      · cases hmore
    · rw [hk]
      trivial
  · rename_i hk
    split
    · rename_i more hmore
      split at hmore
      · assumption
      · cases hmore
    · rw [hk]
      trivial
  · exact admits_classify _ _ _
  · rename_i hname
    exact admits_front mode h hname

theorem admits_lexeme (mode : Mode) (c : Char) (cs : List Char) :
    mode.Admits (mode.lexeme c cs).kind := by
  unfold Mode.lexeme
  split
  · rename_i found hf
    exact admits_refine hf
  · trivial

theorem atLineStart_after {kind : TokenKind} (hw : kind ≠ .whitespace) (hn : kind ≠ .newline) :
    (mode.after kind).atLineStart = false := by
  unfold after
  split
  · exact absurd rfl hw
  · exact absurd rfl hn
  · rfl
  · rfl
  · rfl

end Mode

namespace Token

theorem withoutTrivia_cons (token : Token) (tokens : List Token) :
    withoutTrivia (token :: tokens) =
      if token.isTrivia then withoutTrivia tokens else token :: withoutTrivia tokens := by
  rw [withoutTrivia, List.filter_cons]
  cases token.isTrivia <;> rfl

theorem withoutTrivia_append (as bs : List Token) :
    withoutTrivia (as ++ bs) = withoutTrivia as ++ withoutTrivia bs :=
  List.filter_append as bs

/-- Tokens, trivia aside, of which a separator stands only behind a newline. -/
def SeparatorsStartLines (tokens : List Token) : Prop :=
  (withoutTrivia tokens).IsChain fun a b => b.kind = .separator → a.kind = .newline

end Token

namespace Tokenizer

variable {t u : Tokenizer} {token : Token}

theorem next?_admits (h : t.next? = some (token, u)) : t.mode.Admits token.kind := by
  unfold next? at h
  split at h
  · cases h
  · cases h
    exact Mode.admits_lexeme _ _ _

/-- A separator is found only where nothing but blanks stands before it on its line. -/
theorem next?_kind_separator (h : t.next? = some (token, u)) (hk : token.kind = .separator) :
    t.mode.atLineStart = true := by
  have hadmits := next?_admits h
  rwa [hk] at hadmits

/-- Off the start of a line the next token of the grammar is no separator. -/
theorem head?_ne_separator (t : Tokenizer) (h : t.mode.atLineStart = false) :
    ∀ first ∈ (Token.withoutTrivia t.tokens).head?, first.kind ≠ .separator := by
  fun_induction steps t with
  | case1 t hn =>
    rw [tokens_of_next?_eq_none hn]
    intro first hf
    cases hf
  | case2 t token u hn ih =>
    rw [tokens_of_next?_eq_some hn]
    cases htrivia : token.isTrivia with
    | true =>
      have hmode : u.mode.atLineStart = false := by
        rw [(next?_place hn).2.2.2]
        by_cases hw : token.kind = .whitespace
        · rw [hw]
          exact h
        · apply Mode.atLineStart_after hw
          intro hnl
          rw [Token.isTrivia, hnl] at htrivia
          cases htrivia
      rw [Token.withoutTrivia_cons, if_pos htrivia]
      exact ih hmode
    | false =>
      rw [Token.withoutTrivia_cons, if_neg (by simp [htrivia]), List.head?_cons]
      intro first hf hk
      cases hf
      rw [next?_kind_separator hn hk] at h
      cases h

theorem separatorsStartLines (t : Tokenizer) : Token.SeparatorsStartLines t.tokens := by
  fun_induction steps t with
  | case1 t hn =>
    rw [tokens_of_next?_eq_none hn]
    exact List.isChain_nil
  | case2 t token u hn ih =>
    rw [tokens_of_next?_eq_some hn]
    cases htrivia : token.isTrivia with
    | true =>
      rw [Token.SeparatorsStartLines, Token.withoutTrivia_cons, if_pos htrivia]
      exact ih
    | false =>
      rw [Token.SeparatorsStartLines, Token.withoutTrivia_cons, if_neg (by simp [htrivia])]
      apply List.IsChain.cons ih
      intro first hf hk
      by_cases hnl : token.kind = .newline
      · exact hnl
      · have hw : token.kind ≠ .whitespace := by
          intro hw
          rw [Token.isTrivia, hw] at htrivia
          cases htrivia
        have hmode : u.mode.atLineStart = false := by
          rw [(next?_place hn).2.2.2]
          exact Mode.atLineStart_after hw hnl
        exact absurd hk (head?_ne_separator u hmode first hf)

end Tokenizer

end VoiceScript
