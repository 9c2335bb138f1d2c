import VoiceScript.Proofs.Reading

namespace VoiceScript

theorem TokenKind.mem_all (kind : TokenKind) : Kind.token kind ∈ Kind.all := by
  cases kind with
  | keyword k => cases k <;> decide
  | punct p => cases p <;> decide
  | _ => decide

namespace KindSet

theorem contains_ofTokens (kinds : List TokenKind) (kind : TokenKind) :
    (ofTokens kinds).contains (.token kind) = kinds.contains kind := by
  rw [ofTokens, ofList, contains_filter _ _ kind.mem_all]
  induction kinds with
  | nil => rfl
  | cons k kinds ih =>
    rw [List.map_cons, List.contains_cons, List.contains_cons, ih]
    congr 1
    exact Bool.eq_iff_iff.mpr (by simp)

@[simp] theorem contains_ruleEnd (kind : TokenKind) :
    ruleEnd.contains (.token kind) = (kind == .colon || kind == .newline) := by
  exact Bool.eq_iff_iff.mpr (by simp [ruleEnd, contains_ofTokens])

@[simp] theorem contains_modifiers (kind : TokenKind) :
    modifiers.contains (.token kind) = (kind == .keyword .and || kind == .keyword .not) := by
  exact Bool.eq_iff_iff.mpr (by simp [modifiers, contains_ofTokens])

end KindSet

namespace Reading

open Spaced

variable {above : Bool} {w : Spaced} {row : List Spaced} {tail : List Token}

theorem isModifier_eq (w : Spaced) :
    isModifier w = KindSet.modifiers.contains (.token w.token.kind) := by
  simp [isModifier, takes, Ahead.isIn, kind]

theorem body_cons : body (w :: row) tail = tokens (w.bare :: row) ++ tail := by
  simp [body, bare]

theorem colon_tokens (ht : ∀ t ∈ tail, t.isTrivia = true) :
    Ahead.colon (tokens row ++ tail) = (row.head?.map kind == some .colon) := by
  rw [Ahead.colon, skipTrivia_tokens ht, first?_body]

theorem header_body (above : Bool) (w : Spaced) (row : List Spaced)
    (ht : ∀ t ∈ tail, t.isTrivia = true) :
    Ahead.header above (body (w :: row) tail) = (header? above (w.bare :: row)).isSome := by
  have hd : (tokens (w.bare :: row) ++ tail).dropWhile
      (fun t => t.isTrivia || KindSet.modifiers.contains (.token t.kind)) =
      body ((w.bare :: row).dropWhile isModifier) tail := by
    rw [dropWhile_tokens (by intro t h; simp [h]) ht]
    congr 2
    funext v
    rw [v.token_isTrivia, isModifier_eq, Bool.false_or]
  rw [body_cons, Ahead.header, hd, header?]
  cases (w.bare :: row).dropWhile isModifier with
  | nil => rfl
  | cons key after =>
    simp only [body, colon_tokens ht]
    cases after with
    | nil => simp
    | cons colon after =>
      change (Ahead.isKey above key.kind && colon.kind == .colon) = _
      cases hk : Ahead.isKey above key.kind && colon.kind == .colon <;> simp [hk]

theorem dropWhile_body {test : Token → Bool} (trivia : ∀ t, t.isTrivia = true → test t = true)
    (ht : ∀ t ∈ tail, t.isTrivia = true) :
    (body row tail).dropWhile test = body (row.dropWhile fun v => test v.token) tail := by
  cases row with
  | nil => rfl
  | cons w row =>
    rw [body_cons, dropWhile_tokens trivia ht]
    cases hw : test w.token with
    | true => simp [bare, hw]
    | false => simp [bare, hw, body]

theorem dropWhile_parenClose (ht : ∀ t ∈ tail, t.isTrivia = true) :
    (body row tail).dropWhile (fun t => t.kind != .parenClose) =
      body (row.dropWhile (takes (· == some .parenClose))) tail := by
  have hclose : ∀ t : Token, t.isTrivia = true → (t.kind != .parenClose) = true := by
    intro t h
    cases hk : t.kind <;> simp_all [Token.isTrivia, TokenKind.isTrivia]
  rw [dropWhile_body hclose ht]
  rfl

/-- The token after the arguments of a binding is a colon. -/
def colonAfterArguments (row : List Spaced) : Bool :=
  match arguments? row with
  | some (_, colon :: _) => colon.kind == .colon
  | _ => false

theorem isSome_binding? (w : Spaced) (row : List Spaced) :
    (binding? (w :: row)).isSome =
      (Ahead.isIn .bindingKeywords (some w.kind) && colonAfterArguments row) := by
  rw [binding?, colonAfterArguments]
  cases hk : Ahead.isIn .bindingKeywords (some w.kind) with
  | false => rfl
  | true =>
    cases arguments? row with
    | none => rfl
    | some result =>
      obtain ⟨ts, rest⟩ := result
      cases rest with
      | nil => rfl
      | cons colon after => cases hc : colon.kind == .colon <;> simp_all

theorem colonAfterArguments_eq (ht : ∀ t ∈ tail, t.isTrivia = true) :
    (if row.head?.map kind = some .parenOpen then
      match body (row.dropWhile (takes (· == some .parenClose))) tail with
      | [] => false
      | _ :: after => Ahead.colon after
    else row.head?.map kind == some .colon) = colonAfterArguments row := by
  rw [colonAfterArguments]
  cases row with
  | nil => rfl
  | cons w row =>
    by_cases hw : w.kind = .parenOpen
    · have hd : (w :: row).dropWhile (takes (· == some .parenClose)) =
          row.dropWhile (takes (· == some .parenClose)) := by
        simp [takes, hw]
      simp only [List.head?_cons, Option.map_some, hw, if_true, arguments?, hd]
      cases row.dropWhile (takes (· == some .parenClose)) with
      | nil => rfl
      | cons close after =>
        simp only [body, colon_tokens ht]
        cases after <;> simp
    · simp [arguments?, hw]

theorem binding_body (w : Spaced) (row : List Spaced) (ht : ∀ t ∈ tail, t.isTrivia = true) :
    Ahead.binding (body (w :: row) tail) = (binding? (w.bare :: row)).isSome := by
  rw [isSome_binding?, ← colonAfterArguments_eq ht]
  rw [body, Ahead.binding, skipTrivia_tokens ht, first?_body, dropWhile_parenClose ht,
    colon_tokens ht]
  rfl

theorem colonOnLine_body (row : List Spaced) (ht : ∀ t ∈ tail, t.isTrivia = true)
    (hw : Ahead.isIn .ruleEnd (some w.kind) = false) :
    Ahead.colonOnLine (body (w :: row) tail) = (command? (w.bare :: row)).isSome := by
  have hpass : ∀ t : Token, t.isTrivia = true →
      (!KindSet.ruleEnd.contains (.token t.kind)) = true := by
    intro t h
    cases hk : t.kind <;> simp_all [Token.isTrivia, TokenKind.isTrivia]
  have htakes : takes (Ahead.isIn .ruleEnd) w.bare = true := by
    simp [takes, hw]
  have hd : (w.bare :: row).dropWhile (fun v => !KindSet.ruleEnd.contains (.token v.token.kind)) =
      row.dropWhile (takes (Ahead.isIn .ruleEnd)) :=
    List.dropWhile_cons_of_pos htakes
  rw [body_cons, Ahead.colonOnLine, dropWhile_tokens hpass ht, hd, first?_body, command?,
    List.takeWhile_cons_of_pos htakes, List.dropWhile_cons_of_pos htakes]
  cases row.dropWhile (takes (Ahead.isIn .ruleEnd)) with
  | nil => rfl
  | cons colon after => cases hc : colon.kind == .colon <;> simp_all

/-- A command has at least one token before its colon. -/
theorem command?_eq_none (hw : Ahead.isIn .ruleEnd (some w.kind) = true) :
    command? (w :: row) = none := by
  have htakes : ¬ takes (Ahead.isIn .ruleEnd) w = true := by
    simp [takes, hw]
  rw [command?, List.takeWhile_cons_of_neg htakes]

end Reading

end VoiceScript
