import VoiceScript.Tokenizer

namespace VoiceScript

namespace Token

/-- Tokens without gap or overlap from an offset on, none of them empty. -/
inductive Consecutive : Nat → List Token → Prop
  | nil (n : Nat) : Consecutive n []
  | cons (token : Token) (tokens : List Token) (filled : token.text ≠ [])
      (tail : Consecutive token.stop tokens) : Consecutive token.start (token :: tokens)

variable {n : Nat} {token a b : Token} {before after tokens : List Token}

/-- The place of a token is the length of what stands before it. -/
theorem Consecutive.start_eq (h : Consecutive n (before ++ token :: after)) :
    token.start = n + Text.byteLength (spelling before) := by
  induction before generalizing n with
  | nil => cases h; simp
  | cons first before ih =>
    cases h with
    | cons _ _ filled tail =>
      have := ih tail
      simp only [spelling_cons, Text.byteLength_append]
      simp only [stop] at this
      omega

theorem Consecutive.filled (h : Consecutive n tokens) : ∀ t ∈ tokens, t.text ≠ [] := by
  induction h with
  | nil => simp
  | cons token tokens filled tail ih =>
    intro t ht
    rcases List.mem_cons.mp ht with rfl | ht
    · exact filled
    · exact ih t ht

/-- A token further right lies at or after the end of the row's start. -/
theorem Consecutive.le_start (h : Consecutive n tokens) : ∀ t ∈ tokens, n ≤ t.start := by
  induction h with
  | nil => simp
  | cons token tokens filled tail ih =>
    intro t ht
    rcases List.mem_cons.mp ht with rfl | ht
    · exact Nat.le_refl _
    · exact Nat.le_trans (Nat.le_of_lt (start_lt_stop filled)) (ih t ht)

/-- A token ends before the next one starts. -/
theorem Consecutive.ordered (h : Consecutive n tokens) :
    tokens.Pairwise fun a b => a.stop ≤ b.start := by
  induction h with
  | nil => exact .nil
  | cons token tokens filled tail ih => exact .cons tail.le_start ih

/-- Tokens in the order of a text, none of them empty. -/
structure Ordered (tokens : List Token) : Prop where
  apart : tokens.Pairwise fun a b => a.stop ≤ b.start
  filled : ∀ t ∈ tokens, t.start < t.stop

theorem Ordered.sublist {as bs : List Token} (h : Ordered bs) (hs : as.Sublist bs) : Ordered as where
  apart := h.apart.sublist hs
  filled := fun t ht => h.filled t (hs.subset ht)

theorem Ordered.stop_le_start_of_append (h : Ordered (before ++ after)) (ha : a ∈ before)
    (hb : b ∈ after) : a.stop ≤ b.start :=
  (List.pairwise_append.mp h.apart).2.2 a ha b hb

/-- A token lies between those before it and those after it. -/
theorem Ordered.around (h : Ordered (before ++ a :: after)) :
    (∀ b ∈ before, b.stop ≤ a.start) ∧ a.start < a.stop ∧ ∀ b ∈ after, a.stop ≤ b.start := by
  refine ⟨fun b hb => h.stop_le_start_of_append hb List.mem_cons_self, h.filled a (by simp), ?_⟩
  rw [List.append_cons] at h
  exact fun b hb => h.stop_le_start_of_append (by simp) hb

theorem Ordered.nodup (h : Ordered tokens) : tokens.Nodup := by
  apply h.apart.imp_of_mem
  intro a b ha _ hle heq
  have hfilled := h.filled a ha
  rw [← heq] at hle
  omega

theorem Ordered.start_le_of_head? (h : Ordered tokens) (hhead : tokens.head? = some a)
    (hb : b ∈ tokens) : a.start ≤ b.start := by
  obtain ⟨rest, rfl⟩ := List.head?_eq_some_iff.mp hhead
  rcases List.mem_cons.mp hb with rfl | hb
  · exact Nat.le_refl _
  · have hapart := (List.pairwise_cons.mp h.apart).1 b hb
    have hfilled := h.filled a List.mem_cons_self
    omega

theorem Ordered.stop_le_of_getLast? (h : Ordered tokens) (hlast : tokens.getLast? = some b)
    (ha : a ∈ tokens) : a.stop ≤ b.stop := by
  obtain ⟨front, rfl⟩ := List.getLast?_eq_some_iff.mp hlast
  rcases List.mem_append.mp ha with ha | ha
  · have hapart := h.stop_le_start_of_append ha (List.mem_singleton_self b)
    have hfilled := h.filled b (by simp)
    omega
  · exact Nat.le_of_eq (congrArg stop (List.mem_singleton.mp ha))

theorem Consecutive.toOrdered {n : Nat} {tokens : List Token} (h : Consecutive n tokens) :
    Ordered tokens where
  apart := h.ordered
  filled := fun t ht => start_lt_stop (h.filled t ht)

end Token

namespace Tokenizer

theorem tokens_of_next?_eq_none {t : Tokenizer} (h : t.next? = none) : t.tokens = [] := by
  rw [tokens, steps]
  split
  · rfl
  · simp_all

theorem tokens_of_next?_eq_some {t u : Tokenizer} {token : Token} (h : t.next? = some (token, u)) :
    t.tokens = token :: u.tokens := by
  rw [tokens, steps]
  split
  · simp_all
  · rename_i hn
    rw [h] at hn
    cases hn
    rfl

/-- The token is at the place of the tokenizer, which then stands at its end. -/
theorem next?_place {t u : Tokenizer} {token : Token} (h : t.next? = some (token, u)) :
    token.start = t.offset ∧ u.offset = token.stop ∧ token.text ≠ [] ∧
      u.mode = t.mode.after token.kind := by
  unfold next? at h
  split at h
  · cases h
  · cases h
    exact ⟨rfl, rfl, by simp, rfl⟩

theorem tokens_consecutive (t : Tokenizer) : Token.Consecutive t.offset t.tokens := by
  fun_induction steps t with
  | case1 t h =>
    rw [tokens_of_next?_eq_none h]
    exact .nil _
  | case2 t token u h ih =>
    obtain ⟨hs, hu, hf, _⟩ := next?_place h
    rw [tokens_of_next?_eq_some h, ← hs]
    rw [hu] at ih
    exact .cons token u.tokens hf ih

end Tokenizer

theorem tokenize_consecutive (source : List Char) : Token.Consecutive 0 (tokenize source) :=
  Tokenizer.tokens_consecutive (.ofText source)

theorem spelling_tokenize (source : List Char) : Token.spelling (tokenize source) = source :=
  Tokenizer.spelling_tokens (.ofText source)

/-- What stands before a token and after it in its text. -/
theorem exists_place {source : List Char} {token : Token} (h : token ∈ tokenize source) :
    ∃ before after, tokenize source = before ++ token :: after ∧
      token.start = Text.byteLength (Token.spelling before) ∧
      source = Token.spelling before ++ (token.text ++ Token.spelling after) := by
  obtain ⟨before, after, hsplit⟩ := List.append_of_mem h
  have hplaces := tokenize_consecutive source
  rw [hsplit] at hplaces
  refine ⟨before, after, hsplit, by rw [hplaces.start_eq, Nat.zero_add], ?_⟩
  rw [← Token.spelling_cons, ← Token.spelling_append, ← hsplit, spelling_tokenize]

theorem stop_le_byteLength {source : List Char} {token : Token} (h : token ∈ tokenize source) :
    token.stop ≤ Text.byteLength source := by
  obtain ⟨before, after, _, hstart, hsource⟩ := exists_place h
  have hlength := congrArg Text.byteLength hsource
  rw [Text.byteLength_append, Text.byteLength_append] at hlength
  rw [Token.stop, hstart]
  omega

theorem getLast?_of_stop_eq {source : List Char} {token : Token} (h : token ∈ tokenize source)
    (hstop : token.stop = Text.byteLength source) : (tokenize source).getLast? = some token := by
  obtain ⟨before, after, hsplit⟩ := List.append_of_mem h
  cases after with
  | nil => rw [hsplit, List.getLast?_concat]
  | cons next after =>
    have hnext : next ∈ tokenize source := by simp [hsplit]
    have hordered := (tokenize_consecutive source).toOrdered
    have hfilled := hordered.filled next hnext
    rw [hsplit] at hordered
    have hapart := hordered.around.2.2 next List.mem_cons_self
    have hbound := stop_le_byteLength hnext
    omega

/-- A token is the part of the source at its span. -/
theorem slice_token {source : List Char} {token : Token} (h : token ∈ tokenize source) :
    Text.slice token.span.start token.span.stop source = token.text := by
  obtain ⟨before, after, _, hstart, hsource⟩ := exists_place h
  simp only [Token.span, Token.stop, hstart]
  conv => lhs; rw [hsource, ← List.append_assoc]
  exact Text.slice_append _ _ _

end VoiceScript
