import VoiceScript.Proofs.Positions

namespace VoiceScript

namespace Lexeme

variable {c x : Char} {cs rest rest' : List Char} {test : Char → Bool}

theorem takeWhile_newline (h : test '\n' = false) (cs rest : List Char) :
    (cs ++ '\n' :: rest).takeWhile test = cs.takeWhile test := by
  induction cs with
  | nil => simp [h]
  | cons c cs ih => simp only [List.cons_append, List.takeWhile_cons, ih]

theorem run_newline (h : test '\n' = false) (cs rest : List Char) :
    run test (cs ++ '\n' :: rest) = run test cs := by
  rw [run, run, takeWhile_newline h]

theorem captureTail_newline (cs rest : List Char) :
    captureTail (cs ++ '\n' :: rest) = captureTail cs := by
  induction cs with
  | nil => rfl
  | cons c cs ih =>
    by_cases hc : c = '>'
    · subst c
      rfl
    · by_cases hn : c = '\n'
      · subst c
        rfl
      · rw [List.cons_append, captureTail, captureTail, ih]
        all_goals simp_all

/-- A backslash does not make a newline part of a regex, so it may stand before one. -/
theorem regexTail_newline (cs rest : List Char) :
    regexTail (cs ++ '\n' :: rest) = regexTail cs := by
  fun_induction regexTail cs with
  | case1 => rfl
  | case2 => rfl
  | case3 => rfl
  | case4 => rfl
  | case5 d cs hd ih => rw [List.cons_append, List.cons_append, regexTail, ih]; exact hd
  | case6 c cs hdollar hnewline hescaped hescape ih =>
    cases cs with
    | nil =>
      by_cases hc : c = '\\'
      · subst c
        rfl
      · rw [List.singleton_append, regexTail]
        all_goals simp_all [regexTail]
    | cons d ds =>
      rw [List.cons_append, regexTail, ih]
      all_goals simp_all

theorem stringTail_cons_pos (c : Char) (cs : List Char) : 0 < stringTail (c :: cs) := by
  rw [stringTail.eq_def]
  split
  · simp_all
  · exact Nat.zero_lt_one
  · omega
  · omega

/-- A string that ends in a part of the text ends there whatever follows. -/
theorem stringTail_append (h : stringTail (cs ++ x :: rest) ≤ cs.length) (rest' : List Char) :
    stringTail (cs ++ rest') = stringTail (cs ++ x :: rest) := by
  fun_induction stringTail cs with
  | case1 =>
    have := stringTail_cons_pos x rest
    rw [List.nil_append, List.length_nil] at h
    omega
  | case2 => rfl
  | case3 d cs ih =>
    simp only [List.cons_append, stringTail, List.length_cons] at h ⊢
    rw [ih (by omega)]
  | case4 c cs hquote hescape ih =>
    cases cs with
    | nil =>
      by_cases hc : c = '\\'
      · subst c
        simp only [List.singleton_append, stringTail, List.length_singleton] at h
        omega
      · have := stringTail_cons_pos x rest
        rw [List.singleton_append, stringTail, List.length_singleton] at h
        · omega
        all_goals simp_all
    | cons d ds =>
      have hstep : ∀ rest, stringTail (c :: (d :: ds) ++ rest) = 1 + stringTail (d :: ds ++ rest) := by
        intro rest
        rw [List.cons_append, List.cons_append, stringTail]
        all_goals simp_all
      rw [hstep] at h
      rw [hstep, hstep, ih (by rw [List.length_cons] at h; omega)]

theorem front?_quote (cs : List Char) : front? '"' cs = some ⟨.string, stringTail cs⟩ := rfl

theorem front?_kind_newline {lexeme : Lexeme} (h : front? c cs = some lexeme)
    (hk : lexeme.kind = .newline) : c = '\n' := by
  have hkinds := front?_kind h
  simpa [hk] using hkinds

theorem front?_slash (d : Char) (ds : List Char) :
    front? '/' (d :: ds) =
      if isNamePart d then some ⟨.path, 1 + run isPathPart ds⟩ else none := rfl

/-- Every piece but a string is the same before a newline as before the end of the text. -/
theorem front?_of_ne_quote (hc : c ≠ '"') (cs rest : List Char) :
    front? c (cs ++ '\n' :: rest) = front? c cs := by
  by_cases hs : c = '/'
  · subst c
    cases cs with
    | nil => rfl
    | cons d ds => rw [List.cons_append, front?_slash, front?_slash, run_newline rfl]
  · simp only [front?, if_neg hc, if_neg hs, captureTail_newline, regexTail_newline]
    rw [run_newline rfl, run_newline rfl, run_newline rfl, run_newline (by decide)]

end Lexeme

namespace Mode

open Lexeme

variable {mode : Mode} {c : Char} {cs rest rest' : List Char} {lexeme : Lexeme}

theorem separatorTail?_newline (cs rest : List Char) :
    separatorTail? (cs ++ '\n' :: rest) = separatorTail? cs := by
  have hd := run_le (· == '-') cs
  have hb := run_le isHorizontal (cs.drop (run (· == '-') cs))
  rw [List.length_drop] at hb
  simp only [separatorTail?]
  rw [run_newline rfl, List.drop_append_of_le_length hd, run_newline rfl,
    List.drop_append_of_le_length (by omega)]
  cases cs.drop (run (· == '-') cs + run isHorizontal (cs.drop (run (· == '-') cs))) with
  | nil => rfl
  | cons d ds =>
    by_cases hn : d = '\n'
    · subst d
      rfl
    · simp [hn]

theorem listRefTail?_newline (cs rest : List Char) :
    listRefTail? (cs ++ '\n' :: rest) = listRefTail? cs := by
  simp only [listRefTail?]
  rw [takeWhile_newline rfl, List.drop_append_of_le_length (List.takeWhile_sublist _).length_le]
  cases cs.drop (cs.takeWhile fun c => c != '\n' && c != '\x7d').length with
  | nil => rfl
  | cons d ds =>
    by_cases hb : d = '\x7d'
    · subst d
      rfl
    · simp [hb]

theorem refine_newline (h : lexeme.kind = .identifier → lexeme.more ≤ cs.length)
    (rest : List Char) :
    mode.refine c (cs ++ '\n' :: rest) lexeme = mode.refine c cs lexeme := by
  simp only [refine, separatorTail?_newline, listRefTail?_newline]
  split
  · rfl
  · rfl
  · rename_i hk
    have hm := h hk
    rw [List.drop_append_of_le_length hm, List.take_append_of_le_length hm]
    cases cs.drop lexeme.more with
    | nil => rfl
    | cons d ds => rfl
  · rfl

/-- A piece that ends before a newline does not depend on the text after the newline. -/
theorem lexeme_newline (h : (mode.lexeme c (cs ++ '\n' :: rest)).more ≤ cs.length)
    (rest' : List Char) :
    mode.lexeme c (cs ++ '\n' :: rest') = mode.lexeme c (cs ++ '\n' :: rest) := by
  by_cases hc : c = '"'
  · subst c
    simp only [Mode.lexeme, front?_quote, refine] at h ⊢
    rw [stringTail_append h]
  · simp only [Mode.lexeme, front?_of_ne_quote hc] at h ⊢
    cases hf : front? c cs with
    | none => rfl
    | some found =>
      rw [hf] at h
      have hm : found.kind = .identifier → found.more ≤ cs.length := by
        intro hk
        simpa [refine, hk] using h
      simp only [refine_newline hm]

theorem classify_ne_newline (mode : Mode) (name : List Char) (called : Bool) :
    mode.classify name called ≠ .newline := by
  intro hk
  have h := mode.classify_kind name called
  simp [hk] at h

theorem refine_kind_newline (h : (mode.refine c cs lexeme).kind = .newline) :
    lexeme.kind = .newline := by
  unfold refine at h
  split at h
  · split at h
    · cases h
    · exact h
  · split at h
    · cases h
    · exact h
  · exact absurd h (classify_ne_newline _ _ _)
  · exact h

/-- Only the newline character makes a newline token. -/
theorem lexeme_kind_newline (h : (mode.lexeme c cs).kind = .newline) :
    c = '\n' ∧ mode.lexeme c cs = ⟨.newline, 0⟩ := by
  have hc : c = '\n' := by
    unfold Mode.lexeme at h
    split at h
    · rename_i found hf
      exact front?_kind_newline hf (refine_kind_newline h)
    · cases h
  subst c
  exact ⟨rfl, rfl⟩

end Mode

namespace Token

/-- A token further right by a number of bytes. -/
def shift (n : Nat) (token : Token) : Token :=
  { token with start := n + token.start }

@[simp] theorem shift_zero (token : Token) : token.shift 0 = token := by
  simp [shift]

@[simp] theorem stop_shift (n : Nat) (token : Token) : (token.shift n).stop = n + token.stop := by
  simp [shift, stop, Nat.add_assoc]

variable {n : Nat} {nl : Token} {before after : List Token}

/-- The tokens up to one are those that end where it ends or before. -/
theorem Consecutive.filter_stop_le (h : Consecutive n (before ++ nl :: after)) :
    (before ++ nl :: after).filter (fun t => t.stop ≤ nl.stop) = before ++ [nl] := by
  have hfilled := h.toOrdered.filled
  obtain ⟨hleft, hmiddle, hright⟩ := h.toOrdered.around
  have hbefore : before.filter (fun t => t.stop ≤ nl.stop) = before := by
    rw [List.filter_eq_self]
    intro t ht
    have hle := hleft t ht
    simp only [decide_eq_true_eq]
    omega
  have hafter : after.filter (fun t => t.stop ≤ nl.stop) = [] := by
    rw [List.filter_eq_nil_iff]
    intro t ht
    have hle := hright t ht
    have hlt := hfilled t (by simp [ht])
    simp only [decide_eq_true_eq]
    omega
  rw [List.filter_append, hbefore, List.filter_cons, if_pos (by simp), hafter]

end Token

namespace Tokenizer

variable {n : Nat} {mode : Mode} {cs rest : List Char} {t u : Tokenizer} {token : Token}

/-- The same tokenizer at a place further right. -/
def shift (n : Nat) (t : Tokenizer) : Tokenizer :=
  { t with offset := n + t.offset }

theorem next?_shift (n : Nat) (t : Tokenizer) :
    (t.shift n).next? = t.next?.map fun (token, u) => (token.shift n, u.shift n) := by
  rcases t with ⟨offset, mode, _ | ⟨c, cs⟩⟩
  · rfl
  · simp [next?, shift, ← Token.stop_shift, Token.shift]

theorem tokens_shift (n : Nat) (t : Tokenizer) : (t.shift n).tokens = t.tokens.map (Token.shift n) := by
  fun_induction steps t with
  | case1 t h =>
    rw [tokens_of_next?_eq_none h, tokens_of_next?_eq_none (by rw [next?_shift, h]; rfl)]
    rfl
  | case2 t token u h ih =>
    have hs : (t.shift n).next? = some (token.shift n, u.shift n) := by
      rw [next?_shift, h]
      rfl
    rw [tokens_of_next?_eq_some h, tokens_of_next?_eq_some hs, ih]
    rfl

/-- A token before a newline is there whatever follows the newline. -/
theorem next?_newline
    (h : next? ⟨n, mode, token.text ++ cs ++ '\n' :: rest⟩ = some (token, u)) (rest' : List Char) :
    u.rest = cs ++ '\n' :: rest ∧ next? ⟨n, mode, token.text ++ cs ++ '\n' :: rest'⟩ =
      some (token, ⟨u.offset, u.mode, cs ++ '\n' :: rest'⟩) := by
  have hrest := next?_text h
  rw [List.append_assoc, List.append_cancel_left_eq] at hrest
  refine ⟨hrest, ?_⟩
  obtain ⟨kind, start, text⟩ := token
  cases text with
  | nil => exact absurd rfl (next?_place h).2.2.1
  | cons c ds =>
    simp only [List.cons_append] at h ⊢
    simp only [next?, Option.some.injEq, Prod.mk.injEq, Token.mk.injEq, List.cons.injEq,
      true_and] at h
    obtain ⟨⟨hkind, rfl, htake⟩, rfl⟩ := h
    have hmore : (mode.lexeme c (ds ++ cs ++ '\n' :: rest)).more = ds.length := by
      have := congrArg List.length htake
      simp only [List.length_take, List.length_append, List.length_cons] at this
      omega
    have hle : (mode.lexeme c (ds ++ cs ++ '\n' :: rest)).more ≤ (ds ++ cs).length := by
      rw [hmore, List.length_append]
      omega
    have hsame := Mode.lexeme_newline hle rest'
    rw [List.append_assoc] at hsame hmore hkind htake
    rw [List.append_assoc] at hsame
    simp only [next?, List.append_assoc, hsame, hmore, hkind, List.take_left, List.drop_left]

/-- Tokens before a newline token are there whatever follows it, and the line after it starts anew. -/
theorem tokens_newline {before after : List Token} {nl : Token}
    (h : tokens ⟨n, mode, Token.spelling before ++ '\n' :: rest⟩ = before ++ nl :: after)
    (rest' : List Char) :
    tokens ⟨n, mode, Token.spelling before ++ '\n' :: rest'⟩ =
      before ++ nl :: tokens ⟨nl.stop, .initial, rest'⟩ := by
  induction before generalizing n mode with
  | nil =>
    have hstep : ∀ rest, next? ⟨n, mode, '\n' :: rest⟩ =
        some (⟨.newline, n, ['\n']⟩, ⟨n + 1, .initial, rest⟩) := fun rest => rfl
    rw [Token.spelling_nil, List.nil_append, tokens_of_next?_eq_some (hstep rest),
      List.nil_append, List.cons.injEq] at h
    rw [Token.spelling_nil, List.nil_append, tokens_of_next?_eq_some (hstep rest'), ← h.1]
    rfl
  | cons b bs ih =>
    rw [Token.spelling_cons] at h ⊢
    cases hn : next? ⟨n, mode, b.text ++ Token.spelling bs ++ '\n' :: rest⟩ with
    | none =>
      rw [tokens_of_next?_eq_none hn] at h
      cases h
    | some step =>
      obtain ⟨token, u⟩ := step
      rw [tokens_of_next?_eq_some hn, List.cons_append, List.cons.injEq] at h
      obtain ⟨rfl, h⟩ := h
      obtain ⟨hu, hnext⟩ := next?_newline hn rest'
      have hu : u = ⟨u.offset, u.mode, Token.spelling bs ++ '\n' :: rest⟩ := by rw [← hu]
      rw [hu] at h
      rw [tokens_of_next?_eq_some hnext, ih h, List.cons_append]

theorem text_of_newline (h : token ∈ t.tokens) (hk : token.kind = .newline) :
    token.text = ['\n'] := by
  fun_induction steps t with
  | case1 t hn =>
    rw [tokens_of_next?_eq_none hn] at h
    cases h
  | case2 t first u hn ih =>
    rw [tokens_of_next?_eq_some hn] at h
    rcases List.mem_cons.mp h with rfl | h
    · unfold next? at hn
      split at hn
      · cases hn
      · cases hn
        obtain ⟨rfl, he⟩ := Mode.lexeme_kind_newline hk
        simp [he]
    · exact ih h

end Tokenizer

/-- A text up to the end of a newline token, with another text after it: the tokens before are kept, and
the other text is cut on its own. -/
theorem tokenize_takeBytes_append (source more : List Char) (n : Nat)
    (h : n = 0 ∨ ∃ t ∈ tokenize source, t.kind = .newline ∧ t.stop = n) :
    tokenize (Text.takeBytes n source ++ more) =
      (tokenize source).filter (fun t => t.stop ≤ n) ++ (tokenize more).map (Token.shift n) := by
  rcases h with rfl | ⟨nl, hm, hk, rfl⟩
  · have hnone : (tokenize source).filter (fun t => t.stop ≤ 0) = [] := by
      rw [List.filter_eq_nil_iff]
      intro t ht
      have := Token.start_lt_stop ((tokenize_consecutive source).filled t ht)
      simp only [decide_eq_true_eq]
      omega
    rw [hnone, Text.takeBytes_zero, List.map_congr_left fun t _ => t.shift_zero]
    simp
  · obtain ⟨before, after, he⟩ := List.append_of_mem hm
    have htext := Tokenizer.text_of_newline hm hk
    have hc := tokenize_consecutive source
    rw [he] at hc
    have hstart : nl.stop = Text.byteLength (Token.spelling before ++ ['\n']) := by
      rw [Token.stop, hc.start_eq, htext, Nat.zero_add, Text.byteLength_append]
    have hsource : source = Token.spelling before ++ ['\n'] ++ Token.spelling after := by
      rw [← spelling_tokenize source, he, Token.spelling_append, Token.spelling_cons, htext,
        List.append_assoc]
    have hcut : Text.takeBytes nl.stop source = Token.spelling before ++ ['\n'] := by
      rw [hsource, hstart, Text.takeBytes_append, Text.takeBytes_zero, List.append_nil]
    have hrun : Tokenizer.tokens ⟨0, .initial, Token.spelling before ++ '\n' :: Token.spelling after⟩ =
        before ++ nl :: after := by
      rw [← he, hsource]
      simp [tokenize, Tokenizer.ofText]
    rw [hcut, he, hc.filter_stop_le]
    rw [List.append_assoc, List.singleton_append, tokenize, Tokenizer.ofText,
      Tokenizer.tokens_newline hrun more]
    have hshift := Tokenizer.tokens_shift nl.stop (.ofText more)
    rw [tokenize, ← hshift]
    simp [Tokenizer.shift, Tokenizer.ofText]

/-- A string over two lines, a newline, and other text in the place of a word. -/
theorem tokenize_after_string :
    (∃ t ∈ tokenize ['"', '\n', '"', '\n', 'a'], t.kind = .newline ∧ t.stop = 4) ∧
    tokenize (Text.takeBytes 4 ['"', '\n', '"', '\n', 'a'] ++ ['-', '-', '-']) =
      [⟨.string, 0, ['"', '\n', '"']⟩, ⟨.newline, 3, ['\n']⟩, ⟨.separator, 4, ['-', '-', '-']⟩] := by
  have h : ∃ t ∈ tokenize ['"', '\n', '"', '\n', 'a'], t.kind = .newline ∧ t.stop = 4 := by
    decide +kernel
  refine ⟨h, ?_⟩
  rw [tokenize_takeBytes_append _ _ 4 (.inr h)]
  decide +kernel

end VoiceScript
