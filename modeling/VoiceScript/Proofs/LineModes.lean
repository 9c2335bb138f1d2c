import Mathlib.Data.List.DropRight
import VoiceScript.Proofs.LineEnds

namespace VoiceScript

namespace Token

/-- The tokens behind the last newline. -/
def lineSoFar (tokens : List Token) : List Token :=
  tokens.rtakeWhile fun t => t.kind != .newline

/-- A token that is what the line before it lets it be. -/
structure FitsLine (line : List Token) (token : Token) (after : List Token) : Prop where
  /-- Spoken words and lists stand left of any colon. -/
  spoken : token.kind = .word ∨ token.kind = .listRef → ∀ t ∈ line, t.kind ≠ .colon
  /-- A plain name stands right of a colon. -/
  plain : token.kind = .identifier → ∃ t ∈ line, t.kind = .colon
  /-- A separator is alone on its line, but for blanks before it. -/
  alone : token.kind = .separator →
    (∀ t ∈ line, t.kind = .whitespace) ∧ ∀ next ∈ after.head?, next.kind = .newline

theorem lineSoFar_newline {tokens : List Token} {token : Token} (h : token.kind = .newline) :
    lineSoFar (tokens ++ [token]) = [] :=
  List.rtakeWhile_concat_neg _ _ _ (by simp [h])

theorem lineSoFar_concat {tokens : List Token} {token : Token} (h : token.kind ≠ .newline) :
    lineSoFar (tokens ++ [token]) = lineSoFar tokens ++ [token] :=
  List.rtakeWhile_concat_pos _ _ _ (by simpa using h)

end Token

namespace Mode

open Token

variable {mode : Mode} {line seen after : List Token} {token : Token}

/-- The mode that the tokens of a line lead to. -/
def ofLine (line : List Token) : Mode :=
  ⟨line.all fun t => t.kind != .colon, line.all fun t => t.kind == .whitespace⟩

theorem inPattern_ofLine : (ofLine line).inPattern = true ↔ ∀ t ∈ line, t.kind ≠ .colon := by
  simp [ofLine]

theorem atLineStart_ofLine :
    (ofLine line).atLineStart = true ↔ ∀ t ∈ line, t.kind = .whitespace := by
  simp [ofLine]

theorem ofLine_concat (line : List Token) (token : Token) :
    ofLine (line ++ [token]) = ⟨(ofLine line).inPattern && token.kind != .colon,
      (ofLine line).atLineStart && token.kind == .whitespace⟩ := by
  simp [ofLine]

theorem inPattern_of_atLineStart (h : (ofLine line).atLineStart = true) :
    (ofLine line).inPattern = true := by
  rw [atLineStart_ofLine] at h
  rw [inPattern_ofLine]
  intro t ht
  simp [h t ht]

/-- A separator stands at the start of a line, where the mode is the same as after it, so that a token always
adds to what the mode tells of its line. -/
theorem after_ofLine (h : (ofLine line).Admits token.kind) (hn : token.kind ≠ .newline) :
    (ofLine line).after token.kind = ofLine (line ++ [token]) := by
  rw [ofLine_concat]
  generalize token.kind = kind at h hn
  cases kind with
  | newline => exact absurd rfl hn
  | whitespace =>
    have hcolon : (TokenKind.whitespace != .colon) = true := rfl
    simp [after, hcolon]
  | separator => simp [after, inPattern_of_atLineStart h]
  | punct punct => cases punct <;> simp [after]
  | _ => simp [after]

theorem after_lineSoFar (h : (ofLine (lineSoFar seen)).Admits token.kind) :
    (ofLine (lineSoFar seen)).after token.kind = ofLine (lineSoFar (seen ++ [token])) := by
  by_cases hn : token.kind = .newline
  · rw [lineSoFar_newline hn, hn]
    rfl
  · rw [lineSoFar_concat hn, after_ofLine h hn]

theorem fitsLine (h : (ofLine line).Admits token.kind)
    (hend : token.kind = .separator → ∀ next ∈ after.head?, next.kind = .newline) :
    FitsLine line token after where
  spoken := by
    rintro (hk | hk)
    · rw [hk] at h
      exact inPattern_ofLine.mp h
    · rw [hk] at h
      exact inPattern_ofLine.mp h
  plain := by
    intro hk
    rw [hk] at h
    have hpattern := mt inPattern_ofLine.mpr (Bool.eq_false_iff.mp h)
    simpa using hpattern
  alone := by
    intro hk
    rw [hk] at h
    exact ⟨atLineStart_ofLine.mp h, hend hk⟩

end Mode

namespace Tokenizer

open Token

variable {t u : Tokenizer} {token : Token} {seen : List Token}
  {before after : List (Token × Tokenizer)}

/-- Where a scan started with a mode that tells of its line, the mode does so at each token. -/
theorem exists_next?_of_steps (hmode : t.mode = .ofLine (lineSoFar seen))
    (h : t.steps = before ++ (token, u) :: after) :
    ∃ v : Tokenizer, v.next? = some (token, u) ∧
      v.mode = .ofLine (lineSoFar (seen ++ before.map Prod.fst)) ∧ u.steps = after := by
  induction before generalizing t seen with
  | nil =>
    cases hn : t.next? with
    | none =>
      rw [steps_of_next?_eq_none hn] at h
      cases h
    | some result =>
      rw [steps_of_next?_eq_some hn] at h
      cases h
      exact ⟨t, hn, by simpa using hmode, rfl⟩
  | cons step before ih =>
    cases hn : t.next? with
    | none =>
      rw [steps_of_next?_eq_none hn] at h
      cases h
    | some result =>
      obtain ⟨first, w⟩ := result
      rw [steps_of_next?_eq_some hn] at h
      obtain ⟨rfl, hrest⟩ := List.cons.inj h
      have hadmits := next?_admits hn
      rw [hmode] at hadmits
      have hw : w.mode = .ofLine (lineSoFar (seen ++ [first])) := by
        rw [(next?_place hn).2.2.2, hmode, Mode.after_lineSoFar hadmits]
      obtain ⟨v, hv⟩ := ih hw hrest
      exact ⟨v, by simpa using hv⟩

theorem exists_next?_of_steps_ofText {source : List Char}
    (h : (ofText source).steps = before ++ (token, u) :: after) :
    ∃ v : Tokenizer, v.next? = some (token, u) ∧
      v.mode = .ofLine (lineSoFar (before.map Prod.fst)) ∧ u.steps = after := by
  have hmode : (ofText source).mode = .ofLine (lineSoFar []) := rfl
  exact exists_next?_of_steps hmode h

theorem mode_of_steps {source : List Char} (h : (ofText source).steps = before ++ (token, u) :: after) :
    u.mode = .ofLine (lineSoFar (before.map Prod.fst ++ [token])) := by
  obtain ⟨v, hnext, hmode, _⟩ := exists_next?_of_steps_ofText h
  have hadmits := next?_admits hnext
  rw [hmode] at hadmits
  rw [(next?_place hnext).2.2.2, hmode, Mode.after_lineSoFar hadmits]

theorem fitsLine_of_steps {source : List Char}
    (h : (ofText source).steps = before ++ (token, u) :: after) :
    FitsLine (lineSoFar (before.map Prod.fst)) token (after.map Prod.fst) := by
  obtain ⟨v, hnext, hmode, hafter⟩ := exists_next?_of_steps_ofText h
  have hadmits := next?_admits hnext
  rw [hmode] at hadmits
  apply Mode.fitsLine hadmits
  intro hk next hhead
  have hends := separatorsEndLines v
  rw [tokens_of_next?_eq_some hnext, tokens, hafter] at hends
  exact hends.rel_head? hhead hk

theorem Reaches.mode_eq_ofLine {source : List Char} (h : (ofText source).Reaches u) :
    ∃ line, u.mode = .ofLine line := by
  rcases reaches_iff.mp h with rfl | ⟨token, hmem⟩
  · exact ⟨[], rfl⟩
  · obtain ⟨before, after, hsplit⟩ := List.append_of_mem hmem
    exact ⟨_, mode_of_steps hsplit⟩

/-- After each token of a text the mode tells of the tokens behind the last newline: it is at the start of a line
while they are all whitespace, and in the pattern while there is no colon among them. So it is never at the start
of a line and off the pattern. Each token is of a kind that the tokens before it on its line allow. -/
theorem modes_follow_lines (source : List Char) :
    (∀ before token u after, (ofText source).steps = before ++ (token, u) :: after →
      FitsLine (lineSoFar (before.map Prod.fst)) token (after.map Prod.fst) ∧
      (u.mode.atLineStart = true ↔
        ∀ t ∈ lineSoFar (before.map Prod.fst ++ [token]), t.kind = .whitespace) ∧
      (u.mode.inPattern = true ↔
        ∀ t ∈ lineSoFar (before.map Prod.fst ++ [token]), t.kind ≠ .colon)) ∧
    ∀ u, (ofText source).Reaches u → u.mode.atLineStart = true → u.mode.inPattern = true := by
  constructor
  · intro before token u after h
    rw [mode_of_steps h]
    exact ⟨fitsLine_of_steps h, Mode.atLineStart_ofLine, Mode.inPattern_ofLine⟩
  · intro u h
    obtain ⟨line, hmode⟩ := h.mode_eq_ofLine
    rw [hmode]
    exact Mode.inPattern_of_atLineStart

/-- A newline in a string starts no line, and the dashes after it are no separator. -/
example : (ofText "a:\"\n\"---\n---".toList).steps.map (fun step => (step.1.kind, step.2.mode.toBits)) =
    [(.word, 1), (.colon, 0), (.string, 0), (.punct .dash, 0), (.punct .dash, 0), (.punct .dash, 0),
      (.newline, 3), (.separator, 1)] := by
  decide +kernel

end Tokenizer

end VoiceScript
