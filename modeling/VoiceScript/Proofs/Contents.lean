import VoiceScript.Dump
import VoiceScript.Proofs.Runs

namespace VoiceScript

namespace Token

/-- What a token is, wherever it stands. -/
def content (t : Token) : TokenKind × List Char :=
  (t.kind, t.text)

def ofContent (content : TokenKind × List Char) : Token :=
  ⟨content.1, 0, content.2⟩

end Token

namespace Recast

/-- Leaves the trivia out and forgets the places. -/
def content : Recast :=
  ⟨fun t => .ofContent t.content, false, fun _ => rfl⟩

theorem tokens_content (ts : List Token) :
    content.tokens ts = ((Token.withoutTrivia ts).map Token.content).map Token.ofContent := by
  simp [tokens, content, Token.withoutTrivia]

end Recast

namespace Literal

theorem problem_ofContent (t : Token) :
    (diagnostic? (Recast.content.token t)).map Diagnostic.problem =
      (diagnostic? t).map Diagnostic.problem := by
  have hkind : (Recast.content.token t).kind = t.kind := rfl
  have hunclosed : unclosed? (Recast.content.token t) = unclosed? t := rfl
  rw [diagnostic?, diagnostic?, hkind, hunclosed]
  split
  · rfl
  · rw [Option.map_map, Option.map_map]
    rfl

theorem diagnostic?_of_isTrivia {t : Token} (h : t.isTrivia = true) : diagnostic? t = none := by
  have hnone : ∀ kind, TokenKind.isTrivia kind = true → kind = .whitespace ∨ kind = .comment := by
    intro kind hk
    cases kind <;> simp_all [TokenKind.isTrivia]
  rcases hnone t.kind h with hk | hk
  · simp [diagnostic?, unclosed?, hk]
  · simp [diagnostic?, unclosed?, hk]

/-- What is wrong with tokens shows in their content. -/
theorem problems_content (tokens : List Token) :
    ((Recast.content.tokens tokens).filterMap diagnostic?).map Diagnostic.problem =
      (tokens.filterMap diagnostic?).map Diagnostic.problem := by
  rw [List.map_filterMap, List.map_filterMap]
  induction tokens with
  | nil => rfl
  | cons t tokens ih =>
    cases ht : t.isTrivia with
    | true =>
      have hskip : Recast.content.tokens (t :: tokens) = Recast.content.tokens tokens := by
        simp [Recast.tokens, Recast.content, ht]
      rw [hskip, ih, List.filterMap_cons, diagnostic?_of_isTrivia ht]
      rfl
    | false =>
      rw [Recast.tokens_cons_of_isTrivia_eq_false ht, List.filterMap_cons, List.filterMap_cons,
        problem_ofContent, ih]

end Literal

namespace Dump

variable {o : Options}

theorem place_eq_nil (hs : o.spans = false) (span : Span) : place o span = [] := by
  rw [place, hs]
  rfl

mutual

theorem tree_content (ht : o.trivia = false) (hs : o.spans = false) (depth : Nat) (t : Tree) :
    tree o depth (t.recast .content) = tree o depth t := by
  match t with
  | .leaf token =>
    rw [Tree.recast_leaf, tree, tree, tokenLine, tokenLine, place_eq_nil hs, place_eq_nil hs,
      Recast.isTrivia_token]
    rfl
  | .node kind children =>
    rw [Tree.recast_node, tree, tree, place_eq_nil hs, place_eq_nil hs,
      trees_content ht hs (depth + 1) children]

/-- A tree prints alike without its trivia and its places if neither is shown. -/
theorem trees_content (ht : o.trivia = false) (hs : o.spans = false) (depth : Nat) (ts : List Tree) :
    trees o depth (Tree.recastAll .content ts) = trees o depth ts := by
  match ts with
  | [] => rw [Tree.recastAll_nil]
  | t :: ts =>
    cases hk : t.kind.isTrivia with
    | false =>
      rw [Tree.recastAll_cons_of_isTrivia_eq_false hk, trees, trees, tree_content ht hs depth t,
        trees_content ht hs depth ts]
    | true =>
      have hprint : tree o depth t = [] := by
        cases t with
        | node kind children => cases hk
        | leaf token =>
          have hk : token.isTrivia = true := hk
          simp [tree, ht, hk]
      have hskip : Tree.recastAll .content (t :: ts) = Tree.recastAll .content ts := by
        rw [Tree.recastAll, hk]
        rfl
      rw [hskip, trees, hprint, List.nil_append, trees_content ht hs depth ts]

end

end Dump

theorem dump_content {o : Dump.Options} (hr : o.raw = true) (ht : o.trivia = false)
    (hs : o.spans = false) (tree : Tree) : dump o (tree.recast .content) = dump o tree := by
  rw [dump, dump, hr, if_pos rfl, if_pos rfl, Dump.tree_content ht hs]

theorem problems_unrecognized (source : List Char) (spans : List Span) :
    (spans.map (unrecognized source)).map Diagnostic.problem =
      List.replicate spans.length .unrecognizedInput := by
  rw [List.map_map]
  exact List.map_const'

theorem length_runSpans (children : List Tree) :
    (runSpans (Tree.withoutTrivia children)).length = (runs (Tree.withoutTrivia children)).length := by
  have h := (reportsRun_droppedRuns [] children).length_eq
  rw [List.length_map, droppedRuns, List.length_map] at h
  exact h.symm

/-- Texts with the same tokens but for trivia and places have the same trees but for these, the same raw dump
that shows neither, and the same problems. -/
theorem parse_content (a b : List Char)
    (h : (Token.withoutTrivia (tokenize a)).map Token.content =
      (Token.withoutTrivia (tokenize b)).map Token.content) :
    ∃ p q, parse a = .ok p ∧ parse b = .ok q ∧
      p.tree.recast .content = q.tree.recast .content ∧
      dump { raw := true, trivia := false, spans := false } p.tree =
        dump { raw := true, trivia := false, spans := false } q.tree ∧
      p.diagnostics.map Diagnostic.problem = q.diagnostics.map Diagnostic.problem := by
  obtain ⟨row, tail, ha, ht⟩ := Spaced.exists_tokens_eq (tokenize a)
  obtain ⟨row', tail', hb, ht'⟩ := Spaced.exists_tokens_eq (tokenize b)
  have htokens : Recast.content.tokens (tokenize a) = Recast.content.tokens (tokenize b) := by
    rw [Recast.tokens_content, h, Recast.tokens_content]
  have habove : Reading.hasSeparator (tokenize a) = Reading.hasSeparator (tokenize b) := by
    rw [← Reading.hasSeparator_recast .content, htokens, Reading.hasSeparator_recast]
  obtain ⟨hrow, htail⟩ : row.map (Spaced.recast .content) = row'.map (Spaced.recast .content) ∧
      Recast.content.tokens tail = Recast.content.tokens tail' := by
    apply Spaced.eq_of_tokens_eq (Recast.tokens_isTrivia ht) (Recast.tokens_isTrivia ht')
    rw [Spaced.tokens_recast, Spaced.tokens_recast, ← Recast.tokens_append, ← Recast.tokens_append,
      ← ha, ← hb, htokens]
  let children := Reading.file (Reading.hasSeparator (tokenize a)) row ++ tail.map .leaf
  let children' := Reading.file (Reading.hasSeparator (tokenize b)) row' ++ tail'.map .leaf
  have hchildren : Tree.recastAll .content children = Tree.recastAll .content children' := by
    rw [Reading.recastAll_file, Reading.recastAll_file, habove, hrow, htail]
  have hruns : (runSpans (Tree.withoutTrivia children)).length =
      (runSpans (Tree.withoutTrivia children')).length := by
    have hrecast := congrArg (fun trees => (runs (Tree.withoutTrivia trees)).length) hchildren
    simp only [runs_recast, List.length_map] at hrecast
    rw [length_runSpans, length_runSpans, hrecast]
  have htree : (Tree.node .file children).recast .content = (Tree.node .file children').recast .content := by
    rw [Tree.recast_node, Tree.recast_node, hchildren]
  refine ⟨_, _, parse_eq_runSpans ha ht, parse_eq_runSpans hb ht', htree, ?_, ?_⟩
  · rw [← dump_content rfl rfl rfl (.node .file children), htree]
    exact dump_content rfl rfl rfl _
  · rw [List.map_append, List.map_append, ← Literal.problems_content, htokens,
      Literal.problems_content, problems_unrecognized, problems_unrecognized, hruns]

/-- A rule with other blanks and a comment. -/
theorem parse_reindented :
    let a := "x y:  z # c\n)\n".toList
    let b := "\tx  y :z\n )#\n".toList
    (Token.withoutTrivia (tokenize a)).map Token.content =
      (Token.withoutTrivia (tokenize b)).map Token.content ∧
    ∃ p q, parse a = .ok p ∧ parse b = .ok q ∧
      p.tree.recast .content = q.tree.recast .content ∧
      dump { raw := true, trivia := false, spans := false } p.tree =
        dump { raw := true, trivia := false, spans := false } q.tree ∧
      p.diagnostics.map Diagnostic.problem = q.diagnostics.map Diagnostic.problem := by
  intro a b
  have h : (Token.withoutTrivia (tokenize a)).map Token.content =
      (Token.withoutTrivia (tokenize b)).map Token.content := by
    decide +kernel
  exact ⟨h, parse_content a b h⟩

end VoiceScript
