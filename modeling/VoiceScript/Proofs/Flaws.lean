import VoiceScript.Parse
import VoiceScript.Proofs.Positions

namespace VoiceScript

namespace Literal

/-- Characters that do not close a literal. Where a backslash escapes, it takes the next character with
it. -/
inductive Inner (close : Char) (escapes : Bool) : List Char → Prop
  | nil : Inner close escapes []
  | plain {c : Char} {cs : List Char} (hc : c ≠ close) (hb : escapes = true → c ≠ '\\')
      (rest : Inner close escapes cs) : Inner close escapes (c :: cs)
  | escaped {c : Char} {cs : List Char} (he : escapes = true) (rest : Inner close escapes cs) :
      Inner close escapes ('\\' :: c :: cs)

/-- A literal with its closing character. -/
def Closed (close : Char) (escapes : Bool) (text : List Char) : Prop :=
  ∃ opening inner, text = opening :: inner ++ [close] ∧ Inner close escapes inner

/-- What can be wrong with a token on its own. -/
inductive Flaw (t : Token) : Problem → Prop
  | invalidCharacter (hk : t.kind = .invalidChar) : Flaw t .invalidCharacter
  | unterminatedString (hk : t.kind = .string) (ho : ¬ Closed '"' true t.text) :
      Flaw t .unterminatedString
  | unclosedCapture (hk : t.kind = .capture) (ho : ¬ Closed '>' false t.text) :
      Flaw t .unclosedCapture
  | unterminatedRegex (hk : t.kind = .regex) (ho : ¬ Closed '$' true t.text) :
      Flaw t .unterminatedRegex

/-- The diagnostics of tokens on their own, in the order of the tokens. -/
inductive Reported : List Token → List Diagnostic → Prop
  | nil : Reported [] []
  | sound {t : Token} {tokens : List Token} {ds : List Diagnostic} (hs : ∀ problem, ¬ Flaw t problem)
      (rest : Reported tokens ds) : Reported (t :: tokens) ds
  | flawed {t : Token} {tokens : List Token} {d : Diagnostic} {ds : List Diagnostic}
      (hf : Flaw t d.problem) (hs : d.span = t.span) (rest : Reported tokens ds) :
      Reported (t :: tokens) (d :: ds)

variable {close : Char} {escapes : Bool} {cs : List Char} {t : Token} {d : Diagnostic}

theorem inner_of_isClosed (h : isClosed close escapes cs = true) :
    ∃ inner, cs = inner ++ [close] ∧ Inner close escapes inner := by
  fun_induction isClosed close escapes cs with
  | case1 => cases h
  | case2 c =>
    simp only [Bool.and_eq_true, beq_iff_eq] at h
    exact ⟨[], by simp [h.1], .nil⟩
  | case3 c d cs hesc ih =>
    simp only [Bool.and_eq_true, beq_iff_eq] at hesc
    obtain ⟨inner, rfl, hi⟩ := ih h
    exact ⟨c :: d :: inner, rfl, hesc.2 ▸ .escaped hesc.1 hi⟩
  | case4 => cases h
  | case5 c d cs hesc hclose ih =>
    obtain ⟨inner, hcs, hi⟩ := ih h
    refine ⟨c :: inner, by rw [hcs]; rfl, .plain (by simpa using hclose) ?_ hi⟩
    intro he hc
    simp [he, hc] at hesc

theorem isClosed_of_inner {inner : List Char} (hb : close ≠ '\\') (h : Inner close escapes inner) :
    isClosed close escapes (inner ++ [close]) = true := by
  induction h with
  | nil => simp [isClosed, hb]
  | @plain c cs hc hplain rest ih =>
    obtain ⟨d, ds, hd⟩ := List.exists_cons_of_ne_nil (show cs ++ [close] ≠ [] by simp)
    have hesc : ¬ (escapes && c == '\\') = true := by
      intro h
      simp only [Bool.and_eq_true, beq_iff_eq] at h
      exact hplain h.1 h.2
    rw [List.cons_append, hd, isClosed, if_neg hesc, if_neg (by simpa using hc), ← hd]
    exact ih
  | @escaped c cs he rest ih =>
    rw [List.cons_append, List.cons_append, isClosed, if_pos (by simp [he])]
    exact ih

/-- The test goes by the text after the opening character. -/
theorem isClosed_tail_iff (hb : close ≠ '\\') (text : List Char) :
    isClosed close escapes text.tail = true ↔ Closed close escapes text := by
  constructor
  · intro h
    cases text with
    | nil => cases h
    | cons opening cs =>
      obtain ⟨inner, hcs, hi⟩ := inner_of_isClosed h
      rw [List.tail_cons] at hcs
      exact ⟨opening, inner, by rw [hcs]; rfl, hi⟩
  · rintro ⟨opening, inner, rfl, hi⟩
    exact isClosed_of_inner hb hi

theorem unless_isClosed_eq_some_iff (hb : close ≠ '\\') (text : List Char) (p q : Problem) :
    (if isClosed close escapes text.tail then none else some p) = some q ↔
      ¬ Closed close escapes text ∧ p = q := by
  rw [← isClosed_tail_iff hb]
  split <;> simp_all

theorem unclosed?_eq_some_iff (hk : t.kind ≠ .invalidChar) (problem : Problem) :
    unclosed? t = some problem ↔ Flaw t problem := by
  constructor
  · intro h
    simp only [unclosed?] at h
    split at h
    · rename_i hs
      obtain ⟨ho, rfl⟩ := (unless_isClosed_eq_some_iff (by decide) _ _ _).mp h
      exact .unterminatedString hs ho
    · rename_i hs
      obtain ⟨ho, rfl⟩ := (unless_isClosed_eq_some_iff (by decide) _ _ _).mp h
      exact .unclosedCapture hs ho
    · rename_i hs
      obtain ⟨ho, rfl⟩ := (unless_isClosed_eq_some_iff (by decide) _ _ _).mp h
      exact .unterminatedRegex hs ho
    · cases h
  · intro hf
    cases hf with
    | invalidCharacter hi => exact absurd hi hk
    | unterminatedString hs ho =>
      simp only [unclosed?, hs]
      exact (unless_isClosed_eq_some_iff (by decide) _ _ _).mpr ⟨ho, rfl⟩
    | unclosedCapture hs ho =>
      simp only [unclosed?, hs]
      exact (unless_isClosed_eq_some_iff (by decide) _ _ _).mpr ⟨ho, rfl⟩
    | unterminatedRegex hs ho =>
      simp only [unclosed?, hs]
      exact (unless_isClosed_eq_some_iff (by decide) _ _ _).mpr ⟨ho, rfl⟩

/-- A token is reported for just what is wrong with it. -/
theorem problem_diagnostic?_iff (t : Token) (problem : Problem) :
    (diagnostic? t).map Diagnostic.problem = some problem ↔ Flaw t problem := by
  unfold diagnostic?
  split
  · rename_i hk
    constructor
    · intro h
      cases h
      exact .invalidCharacter hk
    · intro hf
      cases hf <;> simp_all [Diagnostic.withDetail]
  · rename_i hk
    rw [← unclosed?_eq_some_iff hk, Option.map_map]
    cases unclosed? t <;> rfl

theorem diagnostic?_span (h : diagnostic? t = some d) : d.span = t.span := by
  unfold diagnostic? at h
  split at h
  · cases h
    rfl
  · obtain ⟨problem, _, rfl⟩ := Option.map_eq_some_iff.mp h
    rfl

theorem reported_diagnostics (tokens : List Token) :
    Reported tokens (tokens.filterMap diagnostic?) := by
  induction tokens with
  | nil => exact .nil
  | cons t tokens ih =>
    cases h : diagnostic? t with
    | none =>
      rw [List.filterMap_cons_none h]
      refine .sound ?_ ih
      intro problem hf
      have hp := (problem_diagnostic?_iff t problem).mpr hf
      rw [h] at hp
      cases hp
    | some d =>
      rw [List.filterMap_cons_some h]
      exact .flawed ((problem_diagnostic?_iff t d.problem).mp (by rw [h]; rfl)) (diagnostic?_span h) ih

theorem diagnostics_eq_nil_iff (tokens : List Token) :
    tokens.filterMap diagnostic? = [] ↔ ∀ t ∈ tokens, ∀ problem, ¬ Flaw t problem := by
  rw [List.filterMap_eq_nil_iff]
  apply forall₂_congr
  intro t _
  constructor
  · intro h problem hf
    have hp := (problem_diagnostic?_iff t problem).mpr hf
    rw [h] at hp
    cases hp
  · intro h
    cases hd : diagnostic? t with
    | none => rfl
    | some d => exact absurd ((problem_diagnostic?_iff t d.problem).mp (by rw [hd]; rfl)) (h _)

theorem flaw_of_mem_diagnostics {tokens : List Token} (h : d ∈ tokens.filterMap diagnostic?) :
    ∃ t ∈ tokens, Flaw t d.problem ∧ d.span = t.span := by
  obtain ⟨t, ht, hd⟩ := List.mem_filterMap.mp h
  exact ⟨t, ht, (problem_diagnostic?_iff t _).mp (by rw [hd]; rfl), diagnostic?_span hd⟩

theorem span_of_mem_diagnostics {source : List Char}
    (h : d ∈ (tokenize source).filterMap diagnostic?) :
    d.span.start < d.span.stop ∧ d.span.stop ≤ Text.byteLength source := by
  obtain ⟨t, ht, _, hspan⟩ := flaw_of_mem_diagnostics h
  rw [hspan]
  exact ⟨(tokenize_consecutive source).toOrdered.filled t ht, stop_le_byteLength ht⟩

end Literal

end VoiceScript
