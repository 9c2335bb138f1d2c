import VoiceScript.Proofs.CommentedTokens
import VoiceScript.Proofs.FoldEnds

namespace VoiceScript

variable {line cs body blanks dashes : List Char}

namespace Text

theorem exists_trimStart_eq (cs : List Char) :
    ∃ blanks, trimStart cs = trim cs ++ blanks ∧ ∀ c ∈ blanks, isBlank c = true := by
  refine ⟨(indent (trimStart cs).reverse).reverse, ?_, ?_⟩
  · rw [trim, ← List.reverse_append, indent_append_trimStart, List.reverse_reverse]
  · intro c hc
    exact isBlank_of_mem_indent (List.mem_reverse.mp hc)

theorem trim_of_trimStart_eq (h : trimStart cs = body ++ blanks)
    (hblanks : ∀ c ∈ blanks, isBlank c = true) (hbody : ∀ c ∈ body.getLast?, isBlank c = false) :
    trim cs = body := by
  have hlast : trimStart body.reverse = body.reverse := by
    rw [← List.head?_reverse] at hbody
    cases hr : body.reverse with
    | nil => rfl
    | cons c rest =>
      rw [hr] at hbody
      exact List.dropWhile_cons_of_neg (by simp [hbody c rfl])
  have hfront : ∀ c ∈ blanks.reverse, isBlank c = true :=
    fun c hc => hblanks c (List.mem_reverse.mp hc)
  rw [trim, h, List.reverse_append, trimStart_append_of_blank hfront, hlast, List.reverse_reverse]

theorem isBlank_of_isHorizontal {c : Char} (h : Lexeme.isHorizontal c = true) : isBlank c = true := by
  have hc : c ∈ [' ', '\t', '\r'] := by simpa [Lexeme.isHorizontal, or_assoc] using h
  simp only [List.mem_cons, List.not_mem_nil, or_false] at hc
  rcases hc with rfl | rfl | rfl <;> decide

theorem head?_trimStart (cs : List Char) : ∀ c ∈ (trimStart cs).head?, isBlank c = false := by
  intro c hc
  have h := List.head?_dropWhile_not isBlank cs
  rw [← trimStart, Option.mem_def.mp hc] at h
  simpa using h

end Text

namespace Pattern

theorem mem_separator_iff : cs ∈ separator ↔ ∃ dashes blanks, cs = dashes ++ blanks ∧
    3 ≤ dashes.length ∧ (∀ c ∈ dashes, c = '-') ∧ ∀ c ∈ blanks, Lexeme.isHorizontal c = true := by
  have hdash : ∀ c, ['-'].contains c = true ↔ c = '-' := by simp
  rw [separator, Lexeme.oneOf_blanks, oneOf]
  constructor
  · intro h
    obtain ⟨a, _, ha, has, rfl⟩ := mem_one_mul.mp h
    obtain ⟨b, _, hb, hbs, rfl⟩ := mem_one_mul.mp has
    obtain ⟨c, _, hc, hcs, rfl⟩ := mem_one_mul.mp hbs
    obtain ⟨dashes, hdashes, blanks, hblanks, rfl⟩ := Language.mem_mul.mp hcs
    refine ⟨a :: b :: c :: dashes, blanks, rfl, by simp, ?_, mem_kstar_one.mp hblanks⟩
    intro d hd
    rw [← hdash]
    simp only [List.mem_cons] at hd
    rcases hd with rfl | rfl | rfl | hd
    · exact ha
    · exact hb
    · exact hc
    · exact mem_kstar_one.mp hdashes d hd
  · rintro ⟨dashes, blanks, rfl, hlength, hdashes, hblanks⟩
    obtain ⟨a, b, c, dashes, rfl⟩ : ∃ a b c ds, dashes = a :: b :: c :: ds := by
      rcases dashes with _ | ⟨a, _ | ⟨b, _ | ⟨c, ds⟩⟩⟩
      · simp at hlength
      · simp at hlength
      · simp at hlength
      · exact ⟨a, b, c, ds, rfl⟩
    have htest : ∀ d ∈ a :: b :: c :: dashes, ['-'].contains d = true :=
      fun d hd => (hdash d).mpr (hdashes d hd)
    simp only [List.forall_mem_cons] at htest
    obtain ⟨ha, hb, hc, hrest⟩ := htest
    refine mem_one_mul.mpr ⟨a, _, ha, mem_one_mul.mpr ⟨b, _, hb, mem_one_mul.mpr ⟨c, _, hc, ?_, rfl⟩,
      rfl⟩, rfl⟩
    exact Language.append_mem_mul (mem_kstar_one.mpr hrest) (mem_kstar_one.mpr hblanks)

theorem nil_not_mem_separator : [] ∉ separator := by
  intro h
  obtain ⟨dashes, blanks, hnil, hlength, _⟩ := mem_separator_iff.mp h
  rw [(List.append_eq_nil_iff.mp hnil.symm).1] at hlength
  cases hlength

end Pattern

namespace Outline

/-- A separator by its look is one by its pattern, from the first character that is not blank on. -/
theorem isSeparator_iff
    (hblank : ∀ c ∈ line, Text.isBlank c = true → Lexeme.isHorizontal c = true) :
    isSeparator line = true ↔ Text.trimStart line ∈ Pattern.separator := by
  rw [Pattern.mem_separator_iff]
  constructor
  · intro h
    simp only [isSeparator, Bool.and_eq_true, decide_eq_true_eq, List.all_eq_true, beq_iff_eq] at h
    obtain ⟨blanks, hline, hblanks⟩ := Text.exists_trimStart_eq line
    refine ⟨Text.trim line, blanks, hline, h.1, h.2, ?_⟩
    intro c hc
    have hmem : c ∈ Text.trimStart line := by
      rw [hline]
      exact List.mem_append_right _ hc
    exact hblank c ((List.dropWhile_sublist _).subset hmem) (hblanks c hc)
  · rintro ⟨dashes, blanks, hline, hlength, hdashes, hblanks⟩
    have htrim : Text.trim line = dashes := by
      apply Text.trim_of_trimStart_eq hline
      · exact fun c hc => Text.isBlank_of_isHorizontal (hblanks c hc)
      · intro c hc
        rw [hdashes c (List.mem_of_getLast? hc)]
        decide
    simp only [isSeparator, htrim, Bool.and_eq_true, decide_eq_true_eq, List.all_eq_true, beq_iff_eq]
    exact ⟨hlength, hdashes⟩

end Outline

namespace Mode

open Lexeme

theorem separatorTail?_append (hlength : 2 ≤ dashes.length) (hdashes : ∀ c ∈ dashes, c = '-')
    (hblanks : ∀ c ∈ blanks, isHorizontal c = true) :
    separatorTail? (dashes ++ blanks) = some (dashes.length + blanks.length) := by
  have hrun : run (· == '-') (dashes ++ blanks) = dashes.length := by
    rw [run, Tokenizer.takeWhile_of_stop]
    · intro c hc
      simp [hdashes c hc]
    · intro c hc
      exact beq_eq_false_iff_ne.mpr (ne_of_test (hblanks c (List.mem_of_mem_head? hc)) rfl)
  have hblank : run isHorizontal blanks = blanks.length := by
    rw [run, List.takeWhile_eq_self_iff.mpr hblanks]
  simp [separatorTail?, hrun, hblank, hlength]

end Mode

namespace Tokenizer

open Lexeme

variable {t u : Tokenizer} {token : Token}

theorem tokens_of_rest_eq_nil (h : t.rest = []) : t.tokens = [] := by
  apply tokens_of_next?_eq_none
  rw [next?, h]

theorem head?_text (h : t.next? = some (token, u)) : token.text.head? = t.rest.head? := by
  obtain ⟨c, cs, htext⟩ := List.exists_cons_of_ne_nil (next?_place h).2.2.1
  rw [← next?_text h, htext]
  rfl

theorem next?_mem_pattern {pattern : Language Char} (h : t.next? = some (token, u))
    (hk : token.kind.pattern? = some pattern) : token.text ∈ pattern := by
  apply text_mem_pattern (t := t) _ hk
  rw [tokens_of_next?_eq_some h]
  exact List.mem_cons_self

theorem kind_eq_whitespace_iff (h : t.next? = some (token, u)) :
    token.kind = .whitespace ↔ ∃ c ∈ t.rest.head?, isHorizontal c = true := by
  rw [← head?_text h]
  constructor
  · intro hk
    have htext := next?_mem_pattern h (by rw [hk]; rfl)
    rw [whitespace_eq] at htext
    obtain ⟨c, cs, hc, _, htext⟩ := Pattern.mem_one_mul.mp htext
    exact ⟨c, by rw [htext]; rfl, hc⟩
  · rintro ⟨c, hhead, hc⟩
    unfold next? at h
    split at h
    · cases h
    · cases h
      cases hhead
      simp [Mode.lexeme, front?, hc, Mode.refine]

theorem kind_eq_comment_iff (h : t.next? = some (token, u)) :
    token.kind = .comment ↔ t.rest.head? = some '#' := by
  rw [← head?_text h]
  constructor
  · intro hk
    have htext := next?_mem_pattern h (by rw [hk]; rfl)
    rw [comment_eq] at htext
    obtain ⟨c, cs, hc, _, htext⟩ := Pattern.mem_one_mul.mp htext
    have hsign : c = '#' := by simpa using hc
    rw [htext, hsign]
    rfl
  · intro hhead
    unfold next? at h
    split at h
    · cases h
    · cases h
      cases hhead
      rfl

/-- A separator takes all that is left of its line. -/
theorem text_of_separator (h : t.next? = some (token, u)) (hk : token.kind = .separator)
    (hn : '\n' ∉ t.rest) : token.text = t.rest := by
  obtain ⟨_, more, hrest, hmore⟩ := (next?_munched h).separator hk
  rcases hmore with rfl | hmore
  · rw [hrest, List.append_nil]
  · have hmem := List.mem_append_right token.text (List.mem_of_mem_head? hmore)
    rw [← hrest] at hmem
    exact absurd hmem hn

theorem rest_of_separator (h : t.next? = some (token, u)) (hk : token.kind = .separator)
    (hn : '\n' ∉ t.rest) : u.rest = [] := by
  simpa [text_of_separator h hk hn] using next?_text h

theorem kind_eq_separator_iff (h : t.next? = some (token, u)) (hmode : t.mode.atLineStart = true)
    (hn : '\n' ∉ t.rest) : token.kind = .separator ↔ t.rest ∈ Pattern.separator := by
  constructor
  · intro hk
    rw [← text_of_separator h hk hn]
    exact ((next?_munched h).separator hk).1.matched
  · intro hmatch
    obtain ⟨dashes, blanks, hrest, hlength, hdashes, hblanks⟩ := Pattern.mem_separator_iff.mp hmatch
    obtain ⟨c, ds, rfl⟩ := List.exists_cons_of_length_pos (Nat.lt_of_lt_of_le (by decide) hlength)
    obtain ⟨hc, hds⟩ := List.forall_mem_cons.mp hdashes
    have htail := Mode.separatorTail?_append (Nat.le_of_succ_le_succ hlength) hds hblanks
    have hfront : front? '-' (ds ++ blanks) = some ⟨.punct .dash, 0⟩ := rfl
    rw [next?, hrest, hc, List.cons_append] at h
    cases h
    simp [Mode.lexeme, hfront, Mode.refine, hmode, htail]

end Tokenizer

namespace Token

/-- The tokens that are no whitespace. -/
def withoutBlanks (tokens : List Token) : List Token :=
  tokens.filter fun t => t.kind != .whitespace

theorem withoutBlanks_eq_nil_iff {tokens : List Token} :
    withoutBlanks tokens = [] ↔ ∀ t ∈ tokens, t.kind = .whitespace := by
  simp [withoutBlanks]

end Token

namespace Outline

open Tokenizer

theorem head?_trimStart_isHorizontal (line : List Char) :
    ∀ c ∈ (Text.trimStart line).head?, Lexeme.isHorizontal c = false := by
  intro c hc
  cases hhorizontal : Lexeme.isHorizontal c with
  | false => rfl
  | true =>
    have hshown := Text.head?_trimStart line c hc
    rw [Text.isBlank_of_isHorizontal hhorizontal] at hshown
    cases hshown

/-- The tokens of a line that show are those from its first character on that is not blank. -/
theorem exists_withoutBlanks_eq
    (hblank : ∀ c ∈ line, Text.isBlank c = true → Lexeme.isHorizontal c = true) :
    ∃ n, Token.withoutBlanks (tokenize line) =
      Token.withoutBlanks (tokens ⟨n, .initial, Text.trimStart line⟩) := by
  have hline := Text.indent_append_trimStart line
  cases hindent : Text.indent line with
  | nil =>
    rw [hindent, List.nil_append] at hline
    exact ⟨0, by rw [hline]; rfl⟩
  | cons c cs =>
    have hlead : ∀ d ∈ c :: cs, Lexeme.isHorizontal d = true := by
      rw [← hindent]
      exact fun d hd => hblank d ((List.takeWhile_sublist _).subset hd) (Text.isBlank_of_mem_indent hd)
    have hnext := next?_blanks 0 .initial hlead (head?_trimStart_isHorizontal line)
    rw [hindent] at hline
    have htokens := congrArg Token.withoutBlanks (tokens_of_next?_eq_some hnext)
    rw [hline] at htokens
    exact ⟨_, htokens⟩

/-- A line that is not blank starts, blanks aside, with a token that is no whitespace. -/
theorem exists_first (n : Nat) (h : Text.trimStart line ≠ []) :
    ∃ token u, next? ⟨n, .initial, Text.trimStart line⟩ = some (token, u) ∧
      Token.withoutBlanks (tokens ⟨n, .initial, Text.trimStart line⟩) =
        token :: Token.withoutBlanks u.tokens := by
  cases hn : next? ⟨n, .initial, Text.trimStart line⟩ with
  | none => exact absurd (rest_eq_nil hn) h
  | some result =>
    obtain ⟨token, u⟩ := result
    refine ⟨token, u, rfl, ?_⟩
    have hk : token.kind ≠ .whitespace := by
      intro hk
      obtain ⟨c, hc, hhorizontal⟩ := (kind_eq_whitespace_iff hn).mp hk
      rw [head?_trimStart_isHorizontal line c hc] at hhorizontal
      cases hhorizontal
    rw [tokens_of_next?_eq_some hn, Token.withoutBlanks, List.filter_cons_of_pos (by simpa using hk)]
    rfl

/-- The outline and the tokenizer tell blank lines, separators and comments alike, where no other characters than
spaces, tabs and carriage returns are blank. -/
theorem line_kinds_of_tokens (line : List Char)
    (hblank : ∀ c ∈ line, Text.isBlank c = true → c ∈ [' ', '\t', '\r']) :
    (isBlank line = true ↔ ∀ t ∈ tokenize line, t.kind = .whitespace) ∧
    (isSeparator line = true ↔
      ∃ t, Token.withoutBlanks (tokenize line) = [t] ∧ t.kind = .separator) ∧
    (isCommented line = true ↔
      ∃ t, (Token.withoutBlanks (tokenize line)).head? = some t ∧ t.kind = .comment) := by
  have hhorizontal : ∀ c ∈ line, Text.isBlank c = true → Lexeme.isHorizontal c = true := by
    simpa [Lexeme.isHorizontal, or_assoc] using hblank
  have hn : '\n' ∉ Text.trimStart line := by
    intro hmem
    have h := hblank '\n' ((List.dropWhile_sublist _).subset hmem) (by decide)
    simp at h
  obtain ⟨n, htokens⟩ := exists_withoutBlanks_eq hhorizontal
  rw [← Token.withoutBlanks_eq_nil_iff, isBlank_iff_trimStart, isSeparator_iff hhorizontal, isCommented,
    beq_iff_eq, htokens]
  by_cases hshown : Text.trimStart line = []
  · rw [tokens_of_rest_eq_nil hshown, hshown]
    simp [Token.withoutBlanks, Pattern.nil_not_mem_separator]
  · obtain ⟨token, u, hnext, hfirst⟩ := exists_first n hshown
    rw [hfirst, ← kind_eq_separator_iff hnext rfl hn, ← kind_eq_comment_iff hnext]
    refine ⟨by simp [hshown], ?_, by simp⟩
    constructor
    · intro hk
      have hrest := tokens_of_rest_eq_nil (rest_of_separator hnext hk hn)
      exact ⟨token, by rw [hrest]; rfl, hk⟩
    · rintro ⟨t, hone, hk⟩
      rw [List.cons.injEq] at hone
      rw [hone.1]
      exact hk

/-- A separator with a tab before it, and blanks and a carriage return behind it. -/
theorem line_kinds_separator :
    (∀ c ∈ ['\t', '-', '-', '-', ' ', '\r'], Text.isBlank c = true → c ∈ [' ', '\t', '\r']) ∧
      isSeparator ['\t', '-', '-', '-', ' ', '\r'] = true ∧
      isBlank ['\t', '-', '-', '-', ' ', '\r'] = false ∧
      isCommented ['\t', '-', '-', '-', ' ', '\r'] = false := by
  have hdash : Text.isBlank '-' = false := by decide
  have hblank : ∀ c ∈ ['\t', '-', '-', '-', ' ', '\r'],
      Text.isBlank c = true → c ∈ [' ', '\t', '\r'] := by
    simp [hdash]
  obtain ⟨hblankLine, hseparator, hcommented⟩ := line_kinds_of_tokens _ hblank
  refine ⟨hblank, hseparator.mpr ⟨⟨.separator, 1, ['-', '-', '-', ' ', '\r']⟩, ?_, rfl⟩, ?_, ?_⟩
  · decide +kernel
  · rw [← Bool.not_eq_true, hblankLine]
    decide +kernel
  · rw [← Bool.not_eq_true, hcommented]
    decide +kernel

end Outline

end VoiceScript
