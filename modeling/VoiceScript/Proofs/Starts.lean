import VoiceScript.Proofs.Lookahead
import VoiceScript.Proofs.Positions

namespace VoiceScript

namespace Token

def withoutTrivia (tokens : List Token) : List Token :=
  tokens.filter fun t => !t.isTrivia

/-- A token before the first separator. -/
def AboveSeparator (all : List Token) (token : Token) : Prop :=
  ∃ separator, all.find? (fun t => t.kind == .separator) = some separator ∧
    token.start < separator.start

/-- A token that can be the key of a context header. -/
def IsKey (all : List Token) (key : Token) : Prop :=
  key.kind ∈ [.identifier, .variableRef, .keyword .app, .keyword .tag, .keyword .mode] ∨
    key.kind = .word ∧ AboveSeparator all key

end Token

/-- Modifiers, a key and a colon. -/
def StartsHeader (all row : List Token) : Prop :=
  ∃ modifiers key colon rest, row = modifiers ++ key :: colon :: rest ∧
    (∀ t ∈ modifiers, t.kind = .keyword .and ∨ t.kind = .keyword .not) ∧
    Token.IsKey all key ∧ colon.kind = .colon

/-- A binding keyword and a colon, perhaps with anything in parentheses between them. -/
def StartsBinding (row : List Token) : Prop :=
  ∃ keyword rest, row = keyword :: rest ∧
    KindSet.bindingKeywords.contains (.token keyword.kind) = true ∧
    ((∃ colon more, rest = colon :: more ∧ colon.kind = .colon) ∨
      ∃ opening inner closing colon more, rest = opening :: inner ++ closing :: colon :: more ∧
        opening.kind = .parenOpen ∧ (∀ t ∈ inner, t.kind ≠ .parenClose) ∧
        closing.kind = .parenClose ∧ colon.kind = .colon)

/-- A token other than a colon or a newline, and a colon later on its line. -/
def StartsCommand (row : List Token) : Prop :=
  ∃ first rule colon rest, row = first :: rule ++ colon :: rest ∧ first.kind ≠ .colon ∧
    first.kind ≠ .newline ∧ (∀ t ∈ rule, t.kind ≠ .newline) ∧ colon.kind = .colon

theorem Ahead.isKey_iff (above : Bool) (kind : TokenKind) :
    Ahead.isKey above kind = true ↔
      kind ∈ [.identifier, .variableRef, .keyword .app, .keyword .tag, .keyword .mode] ∨
        kind = .word ∧ above = true := by
  by_cases hk : kind = .word
  · subst kind
    simp [Ahead.isKey]
  · rw [Ahead.isKey, if_neg hk, KindSet.headerKeys, KindSet.contains_ofTokens]
    simp [hk]

namespace Reading

open Spaced

variable {n : Nat} {w key : Spaced} {row ms : List Spaced} {all before after tail : List Token}
  {t : Token}

theorem withoutTrivia_tokens (ht : ∀ t ∈ tail, t.isTrivia = true) :
    Token.withoutTrivia (tokens row ++ tail) = row.map token := by
  have hnone : ∀ {trivia : List Token}, (∀ t ∈ trivia, t.isTrivia = true) →
      trivia.filter (fun t => !t.isTrivia) = [] := by
    intro trivia h
    apply List.filter_eq_nil_iff.mpr
    intro t hm
    simp [h t hm]
  rw [Token.withoutTrivia]
  induction row with
  | nil => simpa using hnone ht
  | cons w row ih =>
    rw [tokens_cons, List.append_assoc, List.filter_append, hnone w.lead_isTrivia, List.nil_append,
      List.cons_append, List.filter_cons_of_pos (by simp [w.token_isTrivia]), ih, List.map_cons]

theorem withoutTrivia_row (row : List Spaced) :
    Token.withoutTrivia (tokens row) = row.map token := by
  have hnil : ∀ t ∈ ([] : List Token), t.isTrivia = true := by simp
  rw [← withoutTrivia_tokens hnil, List.append_nil]

theorem hasSeparator_eq (tokens : List Token) :
    hasSeparator tokens = (tokens.find? fun t => t.kind == .separator).isSome :=
  List.isSome_find?.symm

/-- A token is above the first separator if there is one and it is not among the tokens before. -/
theorem aboveSeparator_iff (hc : Token.Consecutive n (before ++ t :: after))
    (hk : t.kind ≠ .separator) :
    Token.AboveSeparator (before ++ t :: after) t ↔
      hasSeparator (before ++ t :: after) = true ∧ hasSeparator before = false := by
  have hfilled := hc.toOrdered.filled
  obtain ⟨hleft, hmiddle, hright⟩ := hc.toOrdered.around
  rw [Token.AboveSeparator, hasSeparator_eq, hasSeparator_eq, List.find?_append,
    List.find?_cons_of_neg (by simpa using hk)]
  cases hb : before.find? (fun u => u.kind == .separator) with
  | some first =>
    have hm := List.mem_of_find?_eq_some hb
    have hle := hleft first hm
    have hlt := hfilled first (by simp [hm])
    simp only [Option.some_or, Option.some.injEq, exists_eq_left', Option.isSome_some,
      Bool.true_eq_false, and_false, iff_false]
    omega
  | none =>
    cases ha : after.find? (fun u => u.kind == .separator) with
    | none => simp
    | some first =>
      have hm := List.mem_of_find?_eq_some ha
      have hle := hright first hm
      simp only [Option.none_or, Option.some.injEq, exists_eq_left', Option.isSome_some,
        Option.isSome_none, and_self, iff_true]
      omega

theorem hasSeparator_tokens (h : ∀ w ∈ row, w.kind ≠ .separator) :
    hasSeparator (tokens row) = false := by
  induction row with
  | nil => rfl
  | cons w row ih =>
    have hw : w.token.kind ≠ .separator := h w (by simp)
    have hrow : hasSeparator (tokens row) = false := ih fun v hv => h v (by simp [hv])
    rw [tokens_cons, hasSeparator_append, hasSeparator_trivia w.lead_isTrivia, Bool.false_or]
    simpa [hasSeparator, hw] using hrow

theorem isModifier_iff : isModifier w = true ↔ w.kind = .keyword .and ∨ w.kind = .keyword .not := by
  rw [isModifier_eq, KindSet.contains_modifiers]
  simp [kind]

/-- After modifiers a token is a key where the parser, which has taken the tokens before, sees one. -/
theorem isKey_token_iff (hall : all = before ++ tokens (ms ++ key :: row) ++ tail)
    (hc : Token.Consecutive n all) (hm : ∀ m ∈ ms, isModifier m = true) :
    Ahead.isKey (hasSeparator all && !hasSeparator before) key.kind = true ↔
      Token.IsKey all key.token := by
  have hms : hasSeparator (tokens ms) = false := by
    apply hasSeparator_tokens
    intro m hmem
    rcases isModifier_iff.mp (hm m hmem) with h | h <;> simp [h]
  have hbefore : hasSeparator (before ++ tokens ms ++ key.lead) = hasSeparator before := by
    simp [hasSeparator_append, hms, hasSeparator_trivia key.lead_isTrivia]
  have hsplit : all = before ++ tokens ms ++ key.lead ++ key.token :: (tokens row ++ tail) := by
    simp [hall]
  rw [Ahead.isKey_iff, Token.IsKey]
  apply or_congr Iff.rfl
  apply and_congr_right
  intro hk
  have hne : key.token.kind ≠ .separator := by
    have hw : key.token.kind = .word := hk
    simp [hw]
  rw [hsplit] at hc ⊢
  rw [aboveSeparator_iff hc hne, hbefore]
  simp

theorem isSome_header?_iff (hall : all = before ++ tokens row ++ tail)
    (hc : Token.Consecutive n all) :
    (header? (hasSeparator all && !hasSeparator before) row).isSome = true ↔
      StartsHeader all (row.map token) := by
  constructor
  · intro h
    obtain ⟨⟨tree, rest⟩, h⟩ := Option.isSome_iff_exists.mp h
    obtain ⟨key, colon, after, hd, hkey, hcolon, _, _⟩ := header?_eq_some h
    have hrow := List.takeWhile_append_dropWhile (p := isModifier) (l := row)
    rw [hd] at hrow
    have hm : ∀ m ∈ row.takeWhile isModifier, isModifier m = true :=
      List.all_eq_true.mp List.all_takeWhile
    refine ⟨(row.takeWhile isModifier).map token, key.token, colon.token, after.map token, ?_, ?_,
      ?_, hcolon⟩
    · conv => lhs; rw [← hrow]
      simp
    · intro t ht
      obtain ⟨m, hmem, rfl⟩ := List.mem_map.mp ht
      exact isModifier_iff.mp (hm m hmem)
    · rw [← hrow] at hall
      exact (isKey_token_iff hall hc hm).mp hkey
  · rintro ⟨modifiers, key, colon, rest, hrow, hm, hkey, hcolon⟩
    obtain ⟨ms, row, rfl, rfl, hkeys⟩ := List.map_eq_append_iff.mp hrow
    obtain ⟨k, row, rfl, rfl, hcolons⟩ := List.map_eq_cons_iff.mp hkeys
    obtain ⟨c, after, rfl, rfl, rfl⟩ := List.map_eq_cons_iff.mp hcolons
    have hm : ∀ m ∈ ms, isModifier m = true := by
      intro m hmem
      exact isModifier_iff.mpr (hm m.token (List.mem_map_of_mem hmem))
    have hk := (isKey_token_iff hall hc hm).mpr hkey
    have hnot : ¬ isModifier k = true := by
      intro h
      rcases Ahead.isKey_iff _ _ |>.mp hk with hk | ⟨hk, _⟩
      all_goals rcases isModifier_iff.mp h with h | h <;> simp [h] at hk
    have hc : c.kind = .colon := hcolon
    rw [header?, List.dropWhile_append_of_pos hm, List.dropWhile_cons_of_neg hnot]
    simp [hk, hc]

theorem takes_parenClose_iff : takes (· == some .parenClose) w = true ↔ w.kind ≠ .parenClose := by
  simp [takes]

theorem arguments?_inner {opening closing : Spaced} {inner : List Spaced}
    (ho : opening.kind = .parenOpen) (hi : ∀ w ∈ inner, w.kind ≠ .parenClose)
    (hc : closing.kind = .parenClose) :
    arguments? (opening :: inner ++ closing :: row) =
      some (opened .bindingArgs opening (leaves (inner ++ [closing])), row) := by
  have hpass : ∀ w ∈ inner, takes (· == some .parenClose) w = true :=
    fun w hw => takes_parenClose_iff.mpr (hi w hw)
  have hstop : ¬ takes (· == some .parenClose) closing = true := by
    simp [takes, hc]
  rw [List.cons_append, arguments?, if_pos ho, List.dropWhile_append_of_pos hpass,
    List.dropWhile_cons_of_neg hstop, List.takeWhile_append_of_pos hpass,
    List.takeWhile_cons_of_neg hstop, List.append_nil]

theorem isSome_binding?_iff (row : List Spaced) :
    (binding? row).isSome = true ↔ StartsBinding (row.map token) := by
  constructor
  · intro h
    obtain ⟨⟨tree, rest⟩, h⟩ := Option.isSome_iff_exists.mp h
    obtain ⟨keyword, row, ts, colon, after, rfl, hk, ha, hcolon, _, _⟩ := binding?_eq_some h
    refine ⟨keyword.token, row.map token, rfl, hk, ?_⟩
    rcases arguments?_eq_some ha with ⟨_, _, rfl⟩ | ⟨opening, row, closing, rfl, ho, hd, _⟩
    · exact .inl ⟨colon.token, after.map token, rfl, hcolon⟩
    · have hrow := List.takeWhile_append_dropWhile (p := takes (· == some .parenClose)) (l := row)
      have hclosing := List.head?_dropWhile_not (takes (· == some .parenClose)) row
      rw [hd] at hrow hclosing
      refine .inr ⟨opening.token, (row.takeWhile (takes (· == some .parenClose))).map token,
        closing.token, colon.token, after.map token, ?_, ho, ?_, ?_, hcolon⟩
      · conv => lhs; rw [← hrow]
        simp
      · intro t ht
        obtain ⟨w, hw, rfl⟩ := List.mem_map.mp ht
        exact takes_parenClose_iff.mp (List.all_eq_true.mp List.all_takeWhile w hw)
      · simpa [takes, kind] using hclosing
  · rintro ⟨keyword, rest, hrow, hk, hrest⟩
    obtain ⟨k, row, rfl, rfl, rfl⟩ := List.map_eq_cons_iff.mp hrow
    rw [isSome_binding?, Bool.and_eq_true]
    refine ⟨hk, ?_⟩
    rcases hrest with ⟨colon, more, hcolons, hcolon⟩ |
      ⟨opening, inner, closing, colon, more, hargs, ho, hi, hclosing, hcolon⟩
    · obtain ⟨c, after, rfl, rfl, rfl⟩ := List.map_eq_cons_iff.mp hcolons
      have hc : c.kind = .colon := hcolon
      simp [colonAfterArguments, arguments?, hc]
    · rw [List.cons_append] at hargs
      obtain ⟨o, row, rfl, rfl, hinner⟩ := List.map_eq_cons_iff.mp hargs
      obtain ⟨inside, row, rfl, rfl, hclose⟩ := List.map_eq_append_iff.mp hinner
      obtain ⟨close, row, rfl, rfl, hcolons⟩ := List.map_eq_cons_iff.mp hclose
      obtain ⟨c, after, rfl, rfl, rfl⟩ := List.map_eq_cons_iff.mp hcolons
      have hpass : ∀ w ∈ inside, w.kind ≠ .parenClose :=
        fun w hw => hi w.token (List.mem_map_of_mem hw)
      have hc : c.kind = .colon := hcolon
      rw [colonAfterArguments, ← List.cons_append, arguments?_inner ho hpass hclosing]
      simp [hc]

theorem takes_ruleEnd_iff :
    takes (Ahead.isIn .ruleEnd) w = true ↔ w.kind ≠ .colon ∧ w.kind ≠ .newline := by
  simp [takes, Ahead.isIn]

/-- The first colon of a line is found if it has any. -/
theorem dropWhile_ruleEnd {colon : Spaced} {rule : List Spaced} (hr : ∀ w ∈ rule, w.kind ≠ .newline)
    (hc : colon.kind = .colon) (row : List Spaced) :
    ∃ first after, (rule ++ colon :: row).dropWhile (takes (Ahead.isIn .ruleEnd)) = first :: after ∧
      first.kind = .colon := by
  induction rule with
  | nil =>
    refine ⟨colon, row, ?_, hc⟩
    rw [List.nil_append, List.dropWhile_cons_of_neg]
    simp [takes_ruleEnd_iff, hc]
  | cons w rule ih =>
    by_cases hw : w.kind = .colon
    · refine ⟨w, rule ++ colon :: row, ?_, hw⟩
      rw [List.cons_append, List.dropWhile_cons_of_neg]
      simp [takes_ruleEnd_iff, hw]
    · obtain ⟨first, after, hd, hf⟩ := ih fun v hv => hr v (by simp [hv])
      refine ⟨first, after, ?_, hf⟩
      rw [List.cons_append, List.dropWhile_cons_of_pos, hd]
      exact takes_ruleEnd_iff.mpr ⟨hw, hr w (by simp)⟩

theorem isSome_command?_iff (row : List Spaced) :
    (command? row).isSome = true ↔ StartsCommand (row.map token) := by
  constructor
  · intro h
    obtain ⟨⟨tree, rest⟩, h⟩ := Option.isSome_iff_exists.mp h
    obtain ⟨first, rule, colon, after, ht, hd, hcolon, _, _⟩ := command?_eq_some h
    have hrow := List.takeWhile_append_dropWhile (p := takes (Ahead.isIn .ruleEnd)) (l := row)
    have hpass : ∀ w ∈ row.takeWhile (takes (Ahead.isIn .ruleEnd)),
        w.kind ≠ .colon ∧ w.kind ≠ .newline :=
      fun w hw => takes_ruleEnd_iff.mp (List.all_eq_true.mp List.all_takeWhile w hw)
    rw [ht] at hrow hpass
    rw [hd] at hrow
    have hfirst := hpass first (by simp)
    refine ⟨first.token, rule.map token, colon.token, after.map token, ?_, hfirst.1, hfirst.2, ?_,
      hcolon⟩
    · rw [← hrow]
      simp
    · intro t hmem
      obtain ⟨w, hw, rfl⟩ := List.mem_map.mp hmem
      exact (hpass w (by simp [hw])).2
  · rintro ⟨first, rule, colon, rest, hrow, hcolon, hnewline, hrule, hc⟩
    rw [List.cons_append] at hrow
    obtain ⟨f, row, rfl, rfl, hrule'⟩ := List.map_eq_cons_iff.mp hrow
    obtain ⟨ws, row, rfl, rfl, hcolons⟩ := List.map_eq_append_iff.mp hrule'
    obtain ⟨c, after, rfl, rfl, rfl⟩ := List.map_eq_cons_iff.mp hcolons
    have hf : takes (Ahead.isIn .ruleEnd) f = true := takes_ruleEnd_iff.mpr ⟨hcolon, hnewline⟩
    obtain ⟨colon, after', hd, hk⟩ :=
      dropWhile_ruleEnd (fun w hw => hrule w.token (List.mem_map_of_mem hw)) hc after
    rw [command?, List.takeWhile_cons_of_pos hf, List.dropWhile_cons_of_pos hf, hd]
    simp [hk]

end Reading

end VoiceScript
