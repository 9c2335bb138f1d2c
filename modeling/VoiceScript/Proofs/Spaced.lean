import VoiceScript.Parser.Ahead
import VoiceScript.Tree

namespace VoiceScript

/-- A token of the grammar with the trivia before it. -/
structure Spaced where
  lead : List Token
  token : Token
  lead_isTrivia : ∀ t ∈ lead, t.isTrivia = true
  token_isTrivia : token.isTrivia = false

namespace Spaced

def kind (w : Spaced) : TokenKind :=
  w.token.kind

/-- The token without the trivia before it. -/
def bare (w : Spaced) : Spaced :=
  { w with lead := [], lead_isTrivia := by simp }

/-- All tokens of a row, trivia included. -/
def tokens (row : List Spaced) : List Token :=
  row.flatMap fun w => w.lead ++ [w.token]

/-- The row as leaves of a tree. -/
def leaves (row : List Spaced) : List Tree :=
  (tokens row).map .leaf

/-- The trivia before the first token of a row, or all that is left if there is none. -/
def front : List Spaced → List Token → List Token
  | [], tail => tail
  | w :: _, _ => w.lead

/-- The tokens from the first one of the grammar on. -/
def body : List Spaced → List Token → List Token
  | [], _ => []
  | w :: row, tail => w.token :: (tokens row ++ tail)

variable {w : Spaced} {row row' : List Spaced} {tail : List Token}

@[simp] theorem kind_bare : w.bare.kind = w.kind := rfl

@[simp] theorem tokens_nil : tokens [] = [] := rfl

@[simp] theorem tokens_cons : tokens (w :: row) = w.lead ++ w.token :: tokens row := by
  simp [tokens]

@[simp] theorem tokens_append : tokens (row ++ row') = tokens row ++ tokens row' :=
  List.flatMap_append

@[simp] theorem leaves_nil : leaves [] = [] := rfl

@[simp] theorem leaves_append : leaves (row ++ row') = leaves row ++ leaves row' := by
  simp [leaves]

theorem leaves_cons : leaves (w :: row) = w.lead.map .leaf ++ .leaf w.token :: leaves row := by
  simp [leaves]

/-- What holds of all trivia is passed over up to the token where it fails. -/
theorem dropWhile_tokens {test : Token → Bool} (trivia : ∀ t, t.isTrivia = true → test t = true)
    (ht : ∀ t ∈ tail, t.isTrivia = true) :
    (tokens row ++ tail).dropWhile test = body (row.dropWhile fun w => test w.token) tail := by
  induction row with
  | nil =>
    have h : (tail ++ []).dropWhile test = [].dropWhile test :=
      List.dropWhile_append_of_pos fun t hm => trivia t (ht t hm)
    simpa [body] using h
  | cons w row ih =>
    have hl : ∀ t ∈ w.lead, test t = true := fun t hm => trivia t (w.lead_isTrivia t hm)
    rw [tokens_cons, List.append_assoc, List.dropWhile_append_of_pos hl, List.cons_append]
    cases hw : test w.token with
    | true => simp [hw, ih]
    | false => simp [hw, body]

theorem skipTrivia_tokens (ht : ∀ t ∈ tail, t.isTrivia = true) :
    Ahead.skipTrivia (tokens row ++ tail) = body row tail := by
  rw [Ahead.skipTrivia, dropWhile_tokens (fun _ h => h) ht]
  cases row with
  | nil => rfl
  | cons w row => simp [w.token_isTrivia]

theorem skipTrivia_body : Ahead.skipTrivia (body row tail) = body row tail := by
  cases row with
  | nil => rfl
  | cons w row => simp [Ahead.skipTrivia, body, w.token_isTrivia]

theorem takeWhile_tokens (ht : ∀ t ∈ tail, t.isTrivia = true) :
    (tokens row ++ tail).takeWhile Token.isTrivia = front row tail := by
  cases row with
  | nil =>
    have h : (tail ++ []).takeWhile Token.isTrivia = tail ++ [].takeWhile Token.isTrivia :=
      List.takeWhile_append_of_pos ht
    simpa [front] using h
  | cons w row =>
    rw [tokens_cons, List.append_assoc, List.takeWhile_append_of_pos w.lead_isTrivia]
    simp [front, w.token_isTrivia]

@[simp] theorem first?_body : Ahead.first? (body row tail) = row.head?.map kind := by
  cases row with
  | nil => rfl
  | cons w row => rfl

/-- Every list of tokens is a row with trivia at the end. -/
theorem exists_tokens_eq (all : List Token) :
    ∃ row tail, all = tokens row ++ tail ∧ ∀ t ∈ tail, t.isTrivia = true := by
  induction all with
  | nil => exact ⟨[], [], by simp⟩
  | cons t all ih =>
    obtain ⟨row, tail, rfl, ht⟩ := ih
    cases hk : t.isTrivia with
    | false => exact ⟨⟨[], t, by simp, hk⟩ :: row, tail, by simp, ht⟩
    | true =>
      cases row with
      | nil =>
        refine ⟨[], t :: tail, by simp, ?_⟩
        intro u hu
        rcases List.mem_cons.mp hu with rfl | hu
        · exact hk
        · exact ht u hu
      | cons w row =>
        refine ⟨⟨t :: w.lead, w.token, ?_, w.token_isTrivia⟩ :: row, tail, by simp, ht⟩
        intro u hu
        rcases List.mem_cons.mp hu with rfl | hu
        · exact hk
        · exact w.lead_isTrivia u hu

/-- There is only one such row. -/
theorem eq_of_tokens_eq {tail' : List Token} (ht : ∀ t ∈ tail, t.isTrivia = true)
    (ht' : ∀ t ∈ tail', t.isTrivia = true) (h : tokens row ++ tail = tokens row' ++ tail') :
    row = row' ∧ tail = tail' := by
  induction row generalizing row' with
  | nil =>
    cases row' with
    | nil => exact ⟨rfl, h⟩
    | cons v row' =>
      have hv := ht v.token (by rw [tokens_nil, List.nil_append] at h; simp [h])
      rw [v.token_isTrivia] at hv
      cases hv
  | cons w row ih =>
    cases row' with
    | nil =>
      have hw := ht' w.token (by rw [tokens_nil, List.nil_append] at h; simp [← h])
      rw [w.token_isTrivia] at hw
      cases hw
    | cons v row' =>
      have hlead : w.lead = v.lead := by
        have hfront := congrArg (List.takeWhile Token.isTrivia) h
        rwa [takeWhile_tokens ht, takeWhile_tokens ht'] at hfront
      rw [tokens_cons, tokens_cons, hlead, List.append_assoc, List.append_assoc,
        List.append_cancel_left_eq, List.cons_append, List.cons_append, List.cons.injEq] at h
      obtain ⟨rfl, rfl⟩ := ih h.2
      cases w
      cases v
      simp_all

end Spaced

end VoiceScript
