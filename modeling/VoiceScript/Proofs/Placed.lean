import Mathlib.Data.List.Pairwise
import VoiceScript.Proofs.LineTable
import VoiceScript.Proofs.Positions

namespace VoiceScript

theorem Line.ofText_ne_nil (cs : List Char) : Line.ofText cs ≠ [] := by
  fun_induction Line.ofText cs with
  | case1 => simp
  | case2 => simp
  | case3 => simp
  | case4 c cs _ _ ih =>
    obtain ⟨line, lines, h⟩ := List.exists_cons_of_ne_nil ih
    rw [h]
    simp [Line.push]

theorem Mode.lexeme_kind_lineFeed (mode : Mode) (cs : List Char) :
    (mode.lexeme '\n' cs).kind = .newline := rfl

theorem Mode.lexeme_kind_return (mode : Mode) (cs : List Char) :
    (mode.lexeme '\r' cs).kind = .whitespace := rfl

namespace Token

variable {lines : List Line} {tokens before after : List Token} {token a b : Token} {offset : Nat}

/-- Whether a token counts for the extent of a construct. -/
def isSolid (token : Token) : Bool :=
  !token.isTrivia && token.kind != .newline

theorem Ordered.eq_or_apart (h : Ordered tokens) (ha : a ∈ tokens) (hb : b ∈ tokens) :
    a = b ∨ a.stop ≤ b.start ∨ b.stop ≤ a.start := by
  have hapart : tokens.Pairwise fun a b => a.stop ≤ b.start ∨ b.stop ≤ a.start :=
    h.apart.imp Or.inl
  have : Std.Symm fun a b : Token => a.stop ≤ b.start ∨ b.stop ≤ a.start := ⟨fun _ _ => Or.symm⟩
  by_cases hab : a = b
  · exact .inl hab
  · exact .inr (hapart.forall ha hb hab)

/-- A row of tokens that stand together has all tokens from its first to its last one. -/
theorem Ordered.mem_of_isInfix {part : List Token} (h : Ordered tokens) (hpart : part <:+: tokens)
    (ha : a ∈ part) (hb : b ∈ part) (ht : token ∈ tokens) (hstart : a.start ≤ token.start)
    (hstop : token.start < b.stop) : token ∈ part := by
  obtain ⟨before, after, rfl⟩ := hpart
  have hfilled := h.filled token ht
  rcases List.mem_append.mp ht with hfront | hafter
  · rcases List.mem_append.mp hfront with hbefore | hmem
    · have hapart : Ordered (before ++ part) := h.sublist (List.sublist_append_left _ _)
      have hle := hapart.stop_le_start_of_append hbefore ha
      omega
    · exact hmem
  · have hle := h.stop_le_start_of_append (List.mem_append_right before hb) hafter
    omega

/-- Tokens in the order of a text, within its lines. Those that are solid start in the content of a line. -/
structure Placed (lines : List Line) (tokens : List Token) : Prop extends Ordered tokens where
  inside : ∀ t ∈ tokens, t.stop ≤ Text.byteLength (Line.join lines)
  visible : ∀ t ∈ tokens, t.isSolid = true →
    ∃ e, Line.contentEnd? lines (Line.ofOffset lines t.start) = some e ∧ t.start < e

theorem Placed.sublist {as bs : List Token} (h : Placed lines bs) (hs : as.Sublist bs) :
    Placed lines as where
  toOrdered := h.toOrdered.sublist hs
  inside := fun t ht => h.inside t (hs.subset ht)
  visible := fun t ht => h.visible t (hs.subset ht)

end Token

namespace Tokenizer

/-- A token that starts with a part of the end of a line is a newline or whitespace. -/
theorem exists_text_of_isSolid {t : Tokenizer} {token : Token} (h : token ∈ t.tokens)
    (hs : token.isSolid = true) : ∃ c cs, token.text = c :: cs ∧ c ≠ '\n' ∧ c ≠ '\r' := by
  fun_induction steps t with
  | case1 t hn =>
    rw [tokens_of_next?_eq_none hn] at h
    cases h
  | case2 t first u hn ih =>
    rw [tokens_of_next?_eq_some hn] at h
    rcases List.mem_cons.mp h with rfl | h
    · unfold next? at hn
      split at hn
      · cases hn
      · rename_i c cs hr
        cases hn
        refine ⟨_, _, rfl, ?_, ?_⟩
        · rintro rfl
          simp [Token.isSolid, Mode.lexeme_kind_lineFeed] at hs
        · rintro rfl
          simp [Token.isSolid, Token.isTrivia, TokenKind.isTrivia, Mode.lexeme_kind_return] at hs
    · exact ih h

end Tokenizer

theorem placed_tokenize (source : List Char) :
    Token.Placed (Line.ofText source) (tokenize source) where
  toOrdered := (tokenize_consecutive source).toOrdered
  inside := by
    intro t ht
    rw [Line.join_ofText]
    exact stop_le_byteLength ht
  visible := by
    intro t ht hs
    obtain ⟨before, after, _, hstart, hsource⟩ := exists_place ht
    obtain ⟨c, cs, htext, hn, hr⟩ := Tokenizer.exists_text_of_isSolid ht hs
    have hjoin : Line.join (Line.ofText source) =
        Token.spelling before ++ c :: (cs ++ Token.spelling after) := by
      rw [htext] at hsource
      exact (Line.join_ofText source).trans hsource
    obtain ⟨e, he⟩ := Line.exists_contentEnd?
      (Line.ofOffset_lt_length (Line.ofText_ne_nil source) t.start)
    refine ⟨e, he, ?_⟩
    rw [hstart] at he ⊢
    exact Line.lt_contentEnd hjoin hn hr he

end VoiceScript
