import VoiceScript.Parse
import VoiceScript.Proofs.Positions
import VoiceScript.Proofs.Productions

namespace VoiceScript

open Spaced

/-- The tree and the diagnostics of a source, by the reading of its tokens. -/
theorem parse_eq {source : List Char} {row : List Spaced} {tail : List Token}
    (hs : tokenize source = tokens row ++ tail) (ht : ∀ t ∈ tail, t.isTrivia = true) :
    let above := Reading.hasSeparator (tokenize source)
    parse source = .ok
      ⟨.node .file (Reading.file above row ++ tail.map .leaf),
        (tokenize source).filterMap Literal.diagnostic? ++
          ((Parser.ofRow row tail).noteAll (Reading.rounds above row)).reportDropped.reports.reverse.map
            (unrecognized source)⟩ := by
  obtain ⟨q, hq, he, hr⟩ := Parser.file_ok row ht
  rw [← hs] at hq he hr
  have hparse : parse source = _ :=
    Parser.bind_ok.mpr ⟨q, hq, by rw [he, Tree.ofEvents?_events]; rfl⟩
  rw [hparse, hr]

/-- A parse gives a file, with the tokens of the source as leaves. -/
theorem exists_parse (source : List Char) :
    ∃ children diagnostics, parse source = .ok ⟨.node .file children, diagnostics⟩ ∧
      Tree.leavesAll children = tokenize source := by
  obtain ⟨row, tail, hs, ht⟩ := exists_tokens_eq (tokenize source)
  refine ⟨_, _, parse_eq hs ht, ?_⟩
  rw [Tree.leavesAll_append, Reading.leavesAll_file, Tree.leavesAll_map_leaf, hs]

namespace Event

@[simp] theorem tokens_append (as bs : List Event) : tokens (as ++ bs) = tokens as ++ tokens bs :=
  List.filterMap_append

@[simp] theorem tokens_map_token (row : List Token) : tokens (row.map .token) = row := by
  induction row with
  | nil => rfl
  | cons t row ih => exact congrArg (List.cons t) ih

end Event

namespace Parser

/-- All tokens of a parser: those written, those set aside, and those to come. -/
def held (p : Parser) : List Token :=
  Event.tokens p.events.reverse ++ p.trivia ++ p.rest

@[simp] theorem held_writeTrivia (p : Parser) : p.writeTrivia.held = p.held := by
  simp [held, writeTrivia]

@[simp] theorem held_openNode (p : Parser) (kind : NodeKind) : (p.openNode kind).held = p.held := by
  rw [← held_writeTrivia p]
  simp [held, openNode, Event.tokens]

theorem held_look {p q : Parser} (h : p.look = .ok q) : q.held = p.held := by
  unfold look at h
  split at h
  · cases h
  · cases h
    simp [held, skipTrivia, Ahead.skipTrivia]

theorem held_bump {p q : Parser} (h : p.bump = .ok q) : q.held = p.held := by
  unfold bump at h
  split at h
  · cases h
  · rename_i token rest hr
    cases h
    rw [← held_writeTrivia p]
    simp [held, writeTrivia, hr, Event.tokens]

theorem held_addDropped (p : Parser) (token : Token) : (p.addDropped token).held = p.held := rfl

@[simp] theorem held_reportDropped (p : Parser) : p.reportDropped.held = p.held := by
  unfold reportDropped
  split <;> rfl

theorem held_drop {p q : Parser} (h : p.drop = .ok q) : q.held = p.held := by
  obtain ⟨a, hl, h⟩ := bind_ok.mp h
  rw [← held_look hl]
  split at h
  · cases h
  · split at h
    · rw [held_bump h, held_reportDropped]
    · rw [held_bump h, held_addDropped]

end Parser

/-- The leaves of the tree are the tokens of the source, each once and in order, at the places that
the texts before them give, and the tree has the text of the source. No step that writes trivia changes
the row of tokens that the parser holds. -/
theorem leaves_parse (source : List Char) :
    (∃ result, parse source = .ok result ∧ result.tree.kind = .node .file ∧
      result.tree.leaves = tokenize source ∧ result.tree.text = source ∧
      ∀ before token after, result.tree.leaves = before ++ token :: after →
        token.start = Text.byteLength (Token.spelling before) ∧
        Text.slice token.span.start token.span.stop source = token.text) ∧
    ∀ p : Parser, (∀ kind, (p.openNode kind).held = p.held) ∧ p.writeTrivia.held = p.held ∧
      (∀ q, p.bump = .ok q → q.held = p.held) ∧ ∀ q, p.drop = .ok q → q.held = p.held := by
  obtain ⟨row, tail, hs, ht⟩ := exists_tokens_eq (tokenize source)
  have hl : Tree.leavesAll (Reading.file (Reading.hasSeparator (tokenize source)) row ++
      tail.map .leaf) = tokenize source := by
    rw [Tree.leavesAll_append, Reading.leavesAll_file, Tree.leavesAll_map_leaf, hs]
  refine ⟨⟨_, parse_eq hs ht, rfl, hl, ?_, ?_⟩, ?_⟩
  · exact (congrArg Token.spelling hl).trans (spelling_tokenize source)
  · intro before token after hb
    have hb : tokenize source = before ++ token :: after := hl.symm.trans hb
    have hc := tokenize_consecutive source
    rw [hb] at hc
    refine ⟨by rw [hc.start_eq, Nat.zero_add], slice_token ?_⟩
    rw [hb]
    simp
  · intro p
    exact ⟨p.held_openNode, p.held_writeTrivia, fun q => Parser.held_bump, fun q => Parser.held_drop⟩

end VoiceScript
