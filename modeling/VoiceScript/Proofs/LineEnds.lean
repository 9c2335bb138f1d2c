import VoiceScript.Proofs.LongestMatch
import VoiceScript.Proofs.Shape

namespace VoiceScript

namespace Token

/-- A row of tokens that goes to the end of a line, with the tokens that come after it. -/
def EndsLine (row after : List Token) : Prop :=
  (∃ last ∈ row.getLast?, last.kind = .newline) ∨
    ∀ t ∈ (withoutTrivia after).head?, t.kind = .newline

/-- Tokens of which a separator has its newline right after it. -/
def SeparatorsEndLines (tokens : List Token) : Prop :=
  tokens.IsChain fun a b => a.kind = .separator → b.kind = .newline

variable {row after : List Token} {token : Token}

theorem endsLine_newline (h : token.kind = .newline) : EndsLine (row ++ [token]) after :=
  .inl ⟨token, by simp, h⟩

end Token

namespace Tokenizer

variable {t u : Tokenizer} {token : Token}

theorem kind_of_lineFeed (h : t.rest = [] ∨ t.rest.head? = some '\n') :
    ∀ first ∈ t.tokens.head?, first.kind = .newline := by
  intro first hfirst
  cases hn : t.next? with
  | none =>
    rw [tokens_of_next?_eq_none hn] at hfirst
    cases hfirst
  | some result =>
    obtain ⟨token, u⟩ := result
    rw [tokens_of_next?_eq_some hn] at hfirst
    cases hfirst
    unfold next? at hn
    split at hn
    · cases hn
    · rename_i c cs hr
      cases hn
      have hc : c = '\n' := by simpa [hr] using h
      subst hc
      rfl

theorem separatorsEndLines (t : Tokenizer) : Token.SeparatorsEndLines t.tokens := by
  fun_induction steps t with
  | case1 t hn =>
    rw [tokens_of_next?_eq_none hn]
    exact List.isChain_nil
  | case2 t token u hn ih =>
    rw [tokens_of_next?_eq_some hn]
    apply List.IsChain.cons ih
    intro first hfirst hk
    obtain ⟨_, more, hrest, hmore⟩ := (next?_munched hn).separator hk
    rw [← next?_text hn, List.append_cancel_left_eq] at hrest
    rw [← hrest] at hmore
    exact u.kind_of_lineFeed hmore first hfirst

end Tokenizer

namespace Tree

/-- What holds of each tree of a row, with the tokens after it, where tokens come after the row. -/
def Along (holds : Tree → List Token → Prop) : List Tree → List Token → Prop
  | [], _ => True
  | tree :: trees, after => holds tree (leavesAll trees ++ after) ∧ Along holds trees after

/-- A statement goes to the end of its line. -/
def StatementEndsLine (tree : Tree) (after : List Token) : Prop :=
  tree.kind = .node .statement → Token.EndsLine tree.leaves after

/-- A node goes to the end of a line, and so do the statements in it. -/
structure EndsLines (tree : Tree) (after : List Token) : Prop where
  whole : ∀ kind, tree.kind = .node kind → Token.EndsLine tree.leaves after
  statements : Along StatementEndsLine tree.children after

variable {holds : Tree → List Token → Prop} {trees us : List Tree} {tree : Tree}
  {tokens after : List Token} {kind : NodeKind}

theorem along_append :
    Along holds (trees ++ us) after ↔
      Along holds trees (leavesAll us ++ after) ∧ Along holds us after := by
  induction trees with
  | nil => simp [Along]
  | cons tree trees ih =>
    rw [List.cons_append, Along, Along, ih, leavesAll_append, List.append_assoc, and_assoc]

theorem along_map_leaf (h : ∀ t after, holds (.leaf t) after) :
    Along holds (tokens.map .leaf) after := by
  induction tokens with
  | nil => trivial
  | cons t tokens ih => exact ⟨h t _, ih⟩

theorem Along.exists_after (h : Along holds trees after) (hmem : tree ∈ trees) :
    ∃ before rest, leavesAll trees ++ after = before ++ tree.leaves ++ rest ∧ holds tree rest := by
  obtain ⟨front, back, rfl⟩ := List.append_of_mem hmem
  have hback := (along_append.mp h).2
  exact ⟨leavesAll front, leavesAll back ++ after, by simp, hback.1⟩

theorem statementEndsLine_leaf (t : Token) (after : List Token) :
    StatementEndsLine (.leaf t) after := by
  intro h
  cases h

theorem endsLines_leaf (t : Token) (after : List Token) : EndsLines (.leaf t) after where
  whole := by
    intro kind h
    cases h
  statements := trivial

theorem statements_map_leaf (tokens after : List Token) :
    Along StatementEndsLine (tokens.map .leaf) after :=
  along_map_leaf statementEndsLine_leaf

end Tree

namespace Reading

open Spaced

variable {above : Bool} {w : Spaced} {row rest : List Spaced} {tail part : List Token}
  {ts : List Tree} {tree : Tree} {kind : NodeKind}

/-- What is taken up to a place where a newline or nothing comes next. -/
theorem endsLine_ahead (h : ∀ w ∈ row.head?, w.kind = .newline) (ht : ∀ t ∈ tail, t.isTrivia = true) :
    Token.EndsLine part (tokens row ++ tail) := by
  refine .inr ?_
  rw [withoutTrivia_tokens ht, List.head?_map]
  intro t hmem
  obtain ⟨w, hw, rfl⟩ := Option.map_eq_some_iff.mp hmem
  exact h w hw

theorem endsLine_trivia (ht : ∀ t ∈ tail, t.isTrivia = true) : Token.EndsLine part tail := by
  have h : Token.EndsLine part (tokens [] ++ tail) := endsLine_ahead (by simp) ht
  exact h

theorem endsLine_token (hw : w.kind = .newline) (part after : List Token) :
    Token.EndsLine (part ++ tokens [w]) after := by
  have hlast : part ++ tokens [w] = part ++ w.lead ++ [w.token] := by simp
  rw [hlast]
  exact Token.endsLine_newline hw

theorem kind_head?_dropWhile (row : List Spaced) :
    ∀ w ∈ (row.dropWhile (takes Ahead.isLineEnd)).head?, w.kind = .newline := by
  intro w hw
  obtain ⟨rest, hrest⟩ := List.head?_eq_some_iff.mp hw
  exact kind_of_dropWhile_isLineEnd hrest

theorem statements_statement (w : Spaced) (row : List Spaced) (ht : ∀ t ∈ tail, t.isTrivia = true) :
    Tree.Along Tree.StatementEndsLine (statement w row)
      (tokens (row.dropWhile (takes Ahead.isLineEnd)) ++ tail) := by
  refine Tree.along_append.mpr ⟨Tree.statements_map_leaf _ _, ?_, trivial⟩
  intro _
  exact endsLine_ahead (kind_head?_dropWhile row) ht

theorem tokens_splits (h : Splits row ts rest) (tail : List Token) :
    tokens row ++ tail = Tree.leavesAll ts ++ (tokens rest ++ tail) := by
  obtain ⟨taken, rfl, hleaves⟩ := h
  rw [tokens_append, hleaves, List.append_assoc]

theorem statements_blockLines (row : List Spaced) (ht : ∀ t ∈ tail, t.isTrivia = true) :
    Tree.Along Tree.StatementEndsLine (blockLines row).1 (tokens (blockLines row).2 ++ tail) := by
  fun_induction blockLines row with
  | case1 => trivial
  | case2 w row => trivial
  | case3 w row _ _ lines ih =>
    exact Tree.along_append.mpr ⟨Tree.statements_map_leaf _ _, ih⟩
  | case4 w row _ _ lines ih =>
    refine Tree.along_append.mpr ⟨?_, ih⟩
    rw [← tokens_splits (splits_blockLines _) tail]
    exact statements_statement w row ht

/-- Lines of a block leave the end of a line behind them if the tokens before do. -/
theorem endsLine_blockLines (row : List Spaced) (ht : ∀ t ∈ tail, t.isTrivia = true)
    (h : Token.EndsLine part (tokens row ++ tail)) :
    Token.EndsLine (part ++ Tree.leavesAll (blockLines row).1)
      (tokens (blockLines row).2 ++ tail) := by
  fun_induction blockLines row generalizing part with
  | case1 => simpa using h
  | case2 w row => simpa using h
  | case3 w row _ hw lines =>
    rename_i ih
    rw [Tree.leavesAll_append, leavesAll_leaves, ← List.append_assoc]
    exact ih (endsLine_token hw part _)
  | case4 w row _ _ lines =>
    rename_i ih
    rw [Tree.leavesAll_append, ← List.append_assoc]
    exact ih (endsLine_ahead (kind_head?_dropWhile row) ht)

theorem statements_block (row : List Spaced) (ht : ∀ t ∈ tail, t.isTrivia = true) :
    Tree.Along Tree.StatementEndsLine (block row).1 (tokens (block row).2 ++ tail) := by
  fun_cases block row with
  | case1 => trivial
  | case2 w row => exact statements_blockLines (w :: row) ht
  | case3 w row =>
    refine Tree.along_append.mpr ⟨?_, statements_blockLines _ ht⟩
    rw [← tokens_splits (splits_blockLines _) tail]
    exact statements_statement w row ht

/-- Whatever stands before it, a block goes to the end of a line. -/
theorem endsLine_block (row : List Spaced) (ht : ∀ t ∈ tail, t.isTrivia = true) :
    Token.EndsLine (part ++ Tree.leavesAll (block row).1) (tokens (block row).2 ++ tail) := by
  fun_cases block row with
  | case1 => exact endsLine_trivia ht
  | case2 w row hw =>
    apply endsLine_blockLines (w :: row) ht
    exact endsLine_ahead (by simpa using hw) ht
  | case3 w row =>
    rw [Tree.leavesAll_append, ← List.append_assoc]
    exact endsLine_blockLines _ ht (endsLine_ahead (kind_head?_dropWhile row) ht)

theorem separatorsEndLines_of_append (as : List Spaced) {bs : List Spaced}
    (h : Token.SeparatorsEndLines (tokens (as ++ bs))) : Token.SeparatorsEndLines (tokens bs) := by
  rw [tokens_append] at h
  exact h.right_of_append

/-- Nothing stands between a separator and its newline. -/
theorem kind_after_separator (h : Token.SeparatorsEndLines (tokens (w :: row)))
    (hw : w.kind = .separator) : ∀ v ∈ row.head?, v.kind = .newline := by
  intro v hv
  obtain ⟨rest, rfl⟩ := List.head?_eq_some_iff.mp hv
  rw [tokens_cons] at h
  have hnext := (List.isChain_cons.mp h.right_of_append).1
  rw [tokens_cons] at hnext
  cases hlead : v.lead with
  | nil =>
    rw [hlead] at hnext
    exact hnext v.token rfl hw
  | cons t lead =>
    rw [hlead] at hnext
    have hk : t.kind = .newline := hnext t rfl hw
    have htrivia := v.lead_isTrivia t (by simp [hlead])
    rw [Token.isTrivia, hk] at htrivia
    cases htrivia

/-- The line of a context header goes to its end, and so does the separator line below. -/
theorem endsLine_headerLine (row : List Spaced) (ht : ∀ t ∈ tail, t.isTrivia = true)
    (hs : Token.SeparatorsEndLines (tokens row)) :
    Token.EndsLine (part ++ tokens (headerLine row).1) (tokens (headerLine row).2 ++ tail) := by
  have hrow := List.takeWhile_append_dropWhile (p := takes Ahead.isLineEnd) (l := row)
  rw [headerLine]
  cases hd : row.dropWhile (takes Ahead.isLineEnd) with
  | nil => exact endsLine_trivia ht
  | cons v rest =>
    have hv := kind_of_dropWhile_isLineEnd hd
    have heat : eat .newline (v :: rest) = ([v], rest) := by
      rw [eat, if_pos hv]
    rw [← hrow, hd] at hs
    have hs := separatorsEndLines_of_append [v] (separatorsEndLines_of_append _ hs)
    simp only [heat]
    fun_cases separatorLine rest with
    | case1 =>
      rw [List.append_nil, tokens_append, ← List.append_assoc]
      exact endsLine_token hv _ _
    | case2 s rest hk =>
      have hnext := kind_after_separator hs hk
      fun_cases eat .newline rest with
      | case1 => exact endsLine_trivia ht
      | case2 n rest hn =>
        have hpair : tokens [s, n] = tokens [s] ++ tokens [n] := by simp
        rw [tokens_append, hpair, ← List.append_assoc, ← List.append_assoc]
        exact endsLine_token hn _ _
      | case3 n rest hn => exact absurd (hnext n rfl) hn
    | case3 s rest =>
      rw [List.append_nil, tokens_append, ← List.append_assoc]
      exact endsLine_token hv _ _

theorem endsLines_header? (h : header? above row = some (tree, rest))
    (ht : ∀ t ∈ tail, t.isTrivia = true) (hs : Token.SeparatorsEndLines (tokens row)) :
    tree.EndsLines (tokens rest ++ tail) := by
  obtain ⟨key, colon, after, hd, _, _, rfl, rfl⟩ := header?_eq_some h
  have hrow : row = row.takeWhile isModifier ++ [key, colon] ++ after := by
    conv => lhs; rw [← List.takeWhile_append_dropWhile (p := isModifier) (l := row), hd]
    simp
  rw [hrow] at hs
  refine ⟨?_, Tree.statements_map_leaf _ _⟩
  intro _ _
  have hleaves : tokens (row.takeWhile isModifier ++ key :: colon :: (headerLine after).1) =
      tokens (row.takeWhile isModifier ++ [key, colon]) ++ tokens (headerLine after).1 := by
    rw [← tokens_append]
    simp
  rw [Tree.leaves_node, leavesAll_leaves, hleaves]
  exact endsLine_headerLine after ht (separatorsEndLines_of_append _ hs)

theorem statements_arguments? (h : arguments? row = some (ts, rest)) (after : List Token) :
    Tree.Along Tree.StatementEndsLine ts after := by
  rcases arguments?_eq_some h with ⟨_, rfl, _⟩ | ⟨_, _, _, _, _, _, rfl⟩
  · trivial
  · refine Tree.along_append.mpr ⟨Tree.statements_map_leaf _ _, ?_, trivial⟩
    intro hk
    cases hk

theorem endsLines_binding? (h : binding? row = some (tree, rest))
    (ht : ∀ t ∈ tail, t.isTrivia = true) : tree.EndsLines (tokens rest ++ tail) := by
  obtain ⟨keyword, _, arguments, colon, after, _, _, ha, _, rfl, rfl⟩ := binding?_eq_some h
  constructor
  · intro _ _
    rw [Tree.leaves_node, Tree.leavesAll_append]
    exact endsLine_block after ht
  · refine Tree.along_append.mpr ⟨?_, statements_block after ht⟩
    refine Tree.along_append.mpr ⟨?_, Tree.statements_map_leaf _ _⟩
    exact Tree.along_append.mpr ⟨Tree.statements_map_leaf _ _, statements_arguments? ha _⟩

theorem endsLines_command? (h : command? row = some (tree, rest))
    (ht : ∀ t ∈ tail, t.isTrivia = true) : tree.EndsLines (tokens rest ++ tail) := by
  obtain ⟨first, rule, colon, after, _, _, _, rfl, rfl⟩ := command?_eq_some h
  constructor
  · intro _ _
    rw [Tree.leaves_node, Tree.leavesAll_append]
    exact endsLine_block after ht
  · refine Tree.along_append.mpr ⟨⟨?_, Tree.statements_map_leaf _ _⟩, statements_block after ht⟩
    intro hk
    cases hk

theorem endsLines_next (above : Bool) (w : Spaced) (row : List Spaced)
    (ht : ∀ t ∈ tail, t.isTrivia = true) (hs : Token.SeparatorsEndLines (tokens (w :: row))) :
    (next above w row).1.EndsLines (tokens (next above w row).2 ++ tail) := by
  have hbare : Token.SeparatorsEndLines (tokens (w.bare :: row)) := by
    rw [tokens_cons] at hs
    exact hs.right_of_append
  unfold next
  cases h : construct? above (w.bare :: row) with
  | none => exact Tree.endsLines_leaf _ _
  | some result =>
    rcases Option.or_eq_some_iff.mp h with h | ⟨_, h⟩
    · exact endsLines_header? h ht hbare
    · rcases Option.or_eq_some_iff.mp h with h | ⟨_, h⟩
      · exact endsLines_binding? h ht
      · exact endsLines_command? h ht

theorem endsLines_file (above : Bool) (row : List Spaced) (ht : ∀ t ∈ tail, t.isTrivia = true)
    (hs : Token.SeparatorsEndLines (tokens row)) :
    Tree.Along Tree.EndsLines (file above row) tail := by
  fun_induction rounds above row with
  | case1 above =>
    rw [file_nil]
    trivial
  | case2 above w row ih =>
    obtain ⟨taken, hrow, _⟩ := splits_next above w row
    have hrest : Token.SeparatorsEndLines (tokens (next above w row).2) := by
      apply separatorsEndLines_of_append (w :: taken)
      rw [List.cons_append, ← hrow]
      exact hs
    rw [file_cons]
    refine Tree.along_append.mpr ⟨Tree.along_map_leaf Tree.endsLines_leaf, ?_, ih hrest⟩
    rw [leavesAll_file]
    exact endsLines_next above w row ht hs

end Reading

/-- Whatever the source, each construct and each statement of a construct goes to the end of a line. -/
theorem parse_endsLines (source : List Char) :
    ∃ children diagnostics, parse source = .ok ⟨.node .file children, diagnostics⟩ ∧
      Tree.leavesAll children = tokenize source ∧ Tree.Along Tree.EndsLines children [] := by
  obtain ⟨row, tail, hs, ht⟩ := Spaced.exists_tokens_eq (tokenize source)
  have hends := Tokenizer.separatorsEndLines (.ofText source)
  rw [← tokenize, hs] at hends
  have hfile := Reading.endsLines_file (Reading.hasSeparator (tokenize source)) row ht
    hends.left_of_append
  refine ⟨_, _, parse_eq hs ht, ?_, Tree.along_append.mpr ⟨?_, ?_⟩⟩
  · rw [Tree.leavesAll_append, Reading.leavesAll_file, Tree.leavesAll_map_leaf, hs]
  · rw [Tree.leavesAll_map_leaf, List.append_nil]
    exact hfile
  · exact Tree.along_map_leaf Tree.endsLines_leaf

end VoiceScript
