import VoiceScript.Proofs.Lossless
import VoiceScript.Proofs.Modes
import VoiceScript.Proofs.Recast

namespace VoiceScript

namespace Shape

/-- What comes after the line of a context header. -/
inductive HeaderEnd (ended : Prop) : List Token → Prop
  | fileEnd (last : ended) : HeaderEnd ended []
  | newline {newline : Token} (hn : newline.kind = .newline) : HeaderEnd ended [newline]
  | separator {newline separator : Token} (hn : newline.kind = .newline)
      (hs : separator.kind = .separator) : HeaderEnd ended [newline, separator]
  | separatorLine {newline separator last : Token} (hn : newline.kind = .newline)
      (hs : separator.kind = .separator) (hl : last.kind = .newline) :
      HeaderEnd ended [newline, separator, last]

def StartsWithNewline (trees : List Tree) : Prop :=
  ∃ newline rest, trees = .leaf newline :: rest ∧ newline.kind = .newline

/-- The newlines and statements of a block. Only a statement on the line of the colon may start with what
could start another construct. -/
inductive Lines (ended : Prop) : Bool → List Tree → Prop
  | nil {afterColon : Bool} : Lines ended afterColon []
  | newline {afterColon : Bool} {newline : Token} {rest : List Tree} (hn : newline.kind = .newline)
      (lines : Lines ended false rest) : Lines ended afterColon (.leaf newline :: rest)
  | statement {afterColon : Bool} {first : Token} {line : List Token} {rest : List Tree}
      (hline : ∀ t ∈ first :: line, t.kind ≠ .newline)
      (hfirst : afterColon = false → KindSet.topLevelFirst.contains (.token first.kind) = false)
      (next : StartsWithNewline rest ∨ rest = [] ∧ ended) (lines : Lines ended false rest) :
      Lines ended afterColon (.node .statement ((first :: line).map .leaf) :: rest)

inductive Arguments : List Tree → Prop
  | none : Arguments []
  | parens {opening closing : Token} {inner : List Token} (ho : opening.kind = .parenOpen)
      (hi : ∀ t ∈ inner, t.kind ≠ .parenClose) (hc : closing.kind = .parenClose) :
      Arguments [.node .bindingArgs ((opening :: inner ++ [closing]).map .leaf)]

/-- A child of the file, where `ended` says that no other comes after it. -/
inductive Child (ended : Prop) : Tree → Prop
  | token {t : Token} : Child ended (.leaf t)
  | header {modifiers value tail : List Token} {key colon : Token}
      (hm : ∀ t ∈ modifiers, t.kind = .keyword .and ∨ t.kind = .keyword .not)
      (hk : KindSet.headerKeys.contains (.token key.kind) = true) (hc : colon.kind = .colon)
      (hv : ∀ t ∈ value, t.kind ≠ .newline ∧ t.kind ≠ .separator) (last : HeaderEnd ended tail) :
      Child ended (.node .header ((modifiers ++ key :: colon :: value ++ tail).map .leaf))
  | command {first colon : Token} {rule : List Token} {block : List Tree}
      (hr : ∀ t ∈ first :: rule, t.kind ≠ .colon ∧ t.kind ≠ .newline) (hc : colon.kind = .colon)
      (hb : Lines ended true block) :
      Child ended (.node .command (.node .rule ((first :: rule).map .leaf) :: .leaf colon :: block))
  | binding {keyword colon : Token} {arguments block : List Tree}
      (hk : KindSet.bindingKeywords.contains (.token keyword.kind) = true)
      (ha : Arguments arguments) (hc : colon.kind = .colon) (hb : Lines ended true block) :
      Child ended (.node .binding (.leaf keyword :: arguments ++ .leaf colon :: block))

inductive File : List Tree → Prop
  | nil : File []
  | cons {child : Tree} {rest : List Tree} (hc : Child (rest = []) child) (children : File rest) :
      File (child :: rest)

theorem Lines.afterColon {ended : Prop} {trees : List Tree} {afterColon : Bool}
    (h : Lines ended false trees) : Lines ended afterColon trees := by
  cases h with
  | nil => exact .nil
  | newline hn lines => exact .newline hn lines
  | statement hline hfirst next lines =>
    exact .statement hline (fun _ => hfirst rfl) next lines

end Shape

namespace Tree

mutual

/-- The nodes of a tree, itself one of them. -/
def nodes : Tree → List Tree
  | leaf _ => []
  | node kind children => node kind children :: nodesAll children

def nodesAll : List Tree → List Tree
  | [] => []
  | tree :: trees => tree.nodes ++ nodesAll trees

end

/-- The first and the last token of a tree are no trivia. -/
structure Trimmed (tree : Tree) : Prop where
  first : ∃ t, tree.leaves.head? = some t ∧ t.isTrivia = false
  last : ∃ t, tree.leaves.getLast? = some t ∧ t.isTrivia = false

def AllTrimmed (trees : List Tree) : Prop :=
  ∀ node ∈ nodesAll trees, node.Trimmed

@[simp] theorem nodesAll_nil : nodesAll [] = [] := by
  rw [nodesAll]

@[simp] theorem nodesAll_cons (tree : Tree) (trees : List Tree) :
    nodesAll (tree :: trees) = tree.nodes ++ nodesAll trees := by
  rw [nodesAll]

@[simp] theorem nodes_leaf (token : Token) : (leaf token).nodes = [] := by
  rw [nodes]

@[simp] theorem nodes_node (kind : NodeKind) (children : List Tree) :
    (node kind children).nodes = node kind children :: nodesAll children := by
  rw [nodes]

@[simp] theorem nodesAll_append (as bs : List Tree) :
    nodesAll (as ++ bs) = nodesAll as ++ nodesAll bs := by
  induction as with
  | nil => simp
  | cons tree as ih => simp [ih]

@[simp] theorem nodesAll_map_leaf (tokens : List Token) : nodesAll (tokens.map leaf) = [] := by
  induction tokens with
  | nil => simp
  | cons token tokens ih => simp [ih]

theorem AllTrimmed.nil : AllTrimmed [] := by
  intro node hm
  rw [nodesAll_nil] at hm
  cases hm

theorem AllTrimmed.append {as bs : List Tree} (ha : AllTrimmed as) (hb : AllTrimmed bs) :
    AllTrimmed (as ++ bs) := by
  intro node hm
  rw [nodesAll_append] at hm
  rcases List.mem_append.mp hm with hm | hm
  · exact ha node hm
  · exact hb node hm

theorem AllTrimmed.node {kind : NodeKind} {children : List Tree}
    (h : (Tree.node kind children).Trimmed) (hc : AllTrimmed children) :
    AllTrimmed [.node kind children] := by
  intro node hm
  rw [nodesAll_cons, nodes_node, nodesAll_nil, List.append_nil] at hm
  rcases List.mem_cons.mp hm with rfl | hm
  · exact h
  · exact hc node hm

theorem allTrimmed_map_leaf (tokens : List Token) : AllTrimmed (tokens.map leaf) := by
  intro node hm
  rw [nodesAll_map_leaf] at hm
  cases hm

theorem AllTrimmed.of_mem {kind : NodeKind} {children trees : List Tree} (h : AllTrimmed trees)
    (hm : .node kind children ∈ trees) : (Tree.node kind children).Trimmed ∧ AllTrimmed children := by
  obtain ⟨before, after, rfl⟩ := List.append_of_mem hm
  have hnodes : ∀ tree ∈ Tree.node kind children :: nodesAll children, tree.Trimmed := by
    intro tree htree
    apply h tree
    rw [nodesAll_append, nodesAll_cons, nodes_node]
    exact List.mem_append_right _ (List.mem_append_left _ htree)
  exact ⟨hnodes _ List.mem_cons_self, fun tree htree => hnodes tree (List.mem_cons_of_mem _ htree)⟩

end Tree

namespace Reading

open Spaced

variable {ended : Prop} {above : Bool} {w v colon : Spaced} {row after rest : List Spaced}
  {tree : Tree} {ts : List Tree}

theorem getLast?_tokens (w : Spaced) (row : List Spaced) :
    ∃ v : Spaced, (tokens (w :: row)).getLast? = some v.token := by
  induction row generalizing w with
  | nil => exact ⟨w, by simp⟩
  | cons v row ih =>
    obtain ⟨u, hu⟩ := ih v
    refine ⟨u, ?_⟩
    rw [tokens_cons, List.getLast?_append, List.getLast?_cons, hu]
    rfl

/-- A tree over tokens of which the first has no trivia before it. -/
theorem trimmed_of_leaves (h : tree.leaves = tokens (w.bare :: row)) : tree.Trimmed := by
  constructor
  · refine ⟨w.token, ?_, w.token_isTrivia⟩
    rw [h]
    simp [bare]
  · obtain ⟨u, hu⟩ := getLast?_tokens w.bare row
    rw [h]
    exact ⟨u.token, hu, u.token_isTrivia⟩

theorem allTrimmed_leaves (row : List Spaced) : Tree.AllTrimmed (leaves row) :=
  Tree.allTrimmed_map_leaf _

theorem allTrimmed_opened (kind : NodeKind) (w : Spaced) (row : List Spaced) :
    Tree.AllTrimmed (opened kind w (leaves row)) := by
  have hnode : (Tree.node kind (leaves (w.bare :: row))).Trimmed :=
    trimmed_of_leaves (leavesAll_leaves _)
  apply (Tree.allTrimmed_map_leaf w.lead).append
  exact .node hnode (allTrimmed_leaves (w.bare :: row))

theorem allTrimmed_statement (w : Spaced) (row : List Spaced) : Tree.AllTrimmed (statement w row) :=
  allTrimmed_opened _ _ _

theorem allTrimmed_blockLines (row : List Spaced) : Tree.AllTrimmed (blockLines row).1 := by
  fun_induction blockLines row with
  | case1 => exact .nil
  | case2 w row => exact .nil
  | case3 w row _ _ lines ih => exact (allTrimmed_leaves [w]).append ih
  | case4 w row _ _ lines ih => exact (allTrimmed_statement w row).append ih

theorem allTrimmed_block (row : List Spaced) : Tree.AllTrimmed (block row).1 := by
  fun_cases block row with
  | case1 => exact .nil
  | case2 w row => exact allTrimmed_blockLines (w :: row)
  | case3 w row => exact (allTrimmed_statement w row).append (allTrimmed_blockLines _)

theorem allTrimmed_arguments? (h : arguments? row = some (ts, rest)) : Tree.AllTrimmed ts := by
  rcases arguments?_eq_some h with ⟨_, rfl, _⟩ | ⟨w, after, close, _, _, _, rfl⟩
  · exact .nil
  · exact allTrimmed_opened _ _ _

theorem trimmed_construct? (h : construct? above (w.bare :: row) = some (tree, rest)) :
    tree.Trimmed := by
  obtain ⟨first, taken, hrow, hl⟩ := splits_construct? h
  rw [List.cons_append, List.cons.injEq] at hrow
  rw [← hrow.1] at hl
  exact trimmed_of_leaves hl

theorem allTrimmed_construct? (h : construct? above (w.bare :: row) = some (tree, rest)) :
    Tree.AllTrimmed [tree] := by
  have htree := trimmed_construct? h
  rcases Option.or_eq_some_iff.mp h with h | ⟨_, h⟩
  · obtain ⟨_, _, _, _, _, _, _, rfl⟩ := header?_eq_some h
    exact .node htree (allTrimmed_leaves _)
  · rcases Option.or_eq_some_iff.mp h with h | ⟨_, h⟩
    · obtain ⟨_, _, _, _, _, _, _, ha, _, _, rfl⟩ := binding?_eq_some h
      apply Tree.AllTrimmed.node htree
      apply Tree.AllTrimmed.append _ (allTrimmed_block _)
      apply Tree.AllTrimmed.append _ (allTrimmed_leaves _)
      exact (allTrimmed_leaves _).append (allTrimmed_arguments? ha)
    · obtain ⟨first, rule, colon, after, ht, _, _, _, rfl⟩ := command?_eq_some h
      have hfirst : first = w.bare := by
        rw [List.takeWhile_cons] at ht
        split at ht
        · exact (List.cons.inj ht).1.symm
        · cases ht
      have hrule : (Tree.node .rule (leaves (first :: rule))).Trimmed := by
        rw [hfirst]
        exact trimmed_of_leaves (leavesAll_leaves _)
      apply Tree.AllTrimmed.node htree
      apply Tree.AllTrimmed.append _ (allTrimmed_block after)
      exact (Tree.AllTrimmed.node hrule (allTrimmed_leaves _)).append (allTrimmed_leaves [colon])

theorem allTrimmed_next (above : Bool) (w : Spaced) (row : List Spaced) :
    Tree.AllTrimmed [(next above w row).1] := by
  unfold next
  cases h : construct? above (w.bare :: row) with
  | none => exact Tree.allTrimmed_map_leaf [w.token]
  | some result => exact allTrimmed_construct? h

theorem allTrimmed_file (above : Bool) (row : List Spaced) : Tree.AllTrimmed (file above row) := by
  fun_induction rounds above row with
  | case1 above =>
    rw [file_nil]
    exact .nil
  | case2 above w row ih =>
    rw [file_cons, ← List.singleton_append]
    exact (Tree.allTrimmed_map_leaf w.lead).append ((allTrimmed_next above w row).append ih)

theorem takes_isLineEnd_iff : takes Ahead.isLineEnd w = true ↔ w.kind ≠ .newline := by
  simp [takes, Ahead.isLineEnd]

theorem exists_of_mem_takeWhile {test : Spaced → Bool} {t : Token}
    (h : t ∈ (row.takeWhile test).map token) :
    ∃ w ∈ row.takeWhile test, test w = true ∧ w.token = t := by
  obtain ⟨w, hw, rfl⟩ := List.mem_map.mp h
  exact ⟨w, hw, List.all_eq_true.mp List.all_takeWhile w hw, rfl⟩

theorem kind_of_dropWhile_isLineEnd (h : row.dropWhile (takes Ahead.isLineEnd) = v :: rest) :
    v.kind = .newline := by
  have hv := List.head?_dropWhile_not (takes Ahead.isLineEnd) row
  rw [h] at hv
  by_cases hn : v.kind = .newline
  · exact hn
  · exact absurd (takes_isLineEnd_iff.mpr hn) (by simpa using hv)

theorem withoutTrivia_opened (kind : NodeKind) (w : Spaced) (row : List Spaced) :
    Tree.withoutTrivia (opened kind w (leaves row)) =
      [.node kind ((w.token :: row.map token).map .leaf)] := by
  have hchildren : Tree.leaf w.token :: leaves row = leaves (w.bare :: row) := by
    simp [leaves_cons, bare]
  rw [opened, Tree.withoutTrivia_append, Tree.withoutTrivia_trivia w.lead_isTrivia, hchildren,
    Tree.withoutTrivia_node, Tree.withoutTrivia_leaves]
  rfl

theorem blockLines_newline (hv : v.kind = .newline) (rest : List Spaced) :
    blockLines (v :: rest) = (leaves [v] ++ (blockLines rest).1, (blockLines rest).2) := by
  have hfirst : ¬ Ahead.isIn .topLevelFirst (some v.kind) = true := by
    rw [hv]
    decide
  rw [blockLines, if_neg hfirst, if_pos hv]

/-- After a statement its line ends, and so does the file where there is no newline. -/
theorem startsWithNewline_blockLines (row : List Spaced)
    (h : (blockLines (row.dropWhile (takes Ahead.isLineEnd))).2 = [] → ended) :
    let lines := Tree.withoutTrivia (blockLines (row.dropWhile (takes Ahead.isLineEnd))).1
    Shape.StartsWithNewline lines ∨ lines = [] ∧ ended := by
  cases hd : row.dropWhile (takes Ahead.isLineEnd) with
  | nil =>
    rw [hd, blockLines] at h
    rw [blockLines]
    exact .inr ⟨Tree.withoutTrivia_nil, h rfl⟩
  | cons v rest =>
    have hv := kind_of_dropWhile_isLineEnd hd
    rw [blockLines_newline hv]
    simp only [Tree.withoutTrivia_append, Tree.withoutTrivia_leaves]
    exact .inl ⟨v.token, _, rfl, hv⟩

theorem lines_statement {afterColon : Bool} (hw : w.kind ≠ .newline)
    (hfirst : afterColon = false → KindSet.topLevelFirst.contains (.token w.kind) = false)
    (h : (blockLines (row.dropWhile (takes Ahead.isLineEnd))).2 = [] → ended)
    (hlines : Shape.Lines ended false
      (Tree.withoutTrivia (blockLines (row.dropWhile (takes Ahead.isLineEnd))).1)) :
    Shape.Lines ended afterColon (Tree.withoutTrivia
      (statement w row ++ (blockLines (row.dropWhile (takes Ahead.isLineEnd))).1)) := by
  rw [Tree.withoutTrivia_append, statement, withoutTrivia_opened]
  refine .statement ?_ hfirst (startsWithNewline_blockLines row h) hlines
  intro t ht
  rcases List.mem_cons.mp ht with rfl | ht
  · exact hw
  · obtain ⟨v, _, hv, rfl⟩ := exists_of_mem_takeWhile ht
    exact takes_isLineEnd_iff.mp hv

theorem lines_blockLines (row : List Spaced) (h : (blockLines row).2 = [] → ended) :
    Shape.Lines ended false (Tree.withoutTrivia (blockLines row).1) := by
  fun_induction blockLines row with
  | case1 => exact .nil
  | case2 w row => exact .nil
  | case3 w row _ hw lines ih =>
    rw [Tree.withoutTrivia_append, Tree.withoutTrivia_leaves]
    exact .newline hw (ih h)
  | case4 w row hfirst hw lines ih =>
    apply lines_statement hw _ h (ih h)
    intro _
    simpa [Ahead.isIn] using hfirst

theorem lines_block (row : List Spaced) (h : (block row).2 = [] → ended) :
    Shape.Lines ended true (Tree.withoutTrivia (block row).1) := by
  fun_cases block row with
  | case1 => exact .nil
  | case2 w row hw =>
    rw [block, if_pos hw] at h
    exact (lines_blockLines (w :: row) h).afterColon
  | case3 w row hw =>
    rw [block, if_neg hw] at h
    exact lines_statement hw (by simp) h (lines_blockLines _ h)

theorem arguments_arguments? (h : arguments? row = some (ts, rest)) :
    Shape.Arguments (Tree.withoutTrivia ts) := by
  rcases arguments?_eq_some h with ⟨_, rfl, _⟩ | ⟨w, after, close, rfl, hw, hd, rfl⟩
  · exact .none
  · have hclose := List.head?_dropWhile_not (takes (· == some .parenClose)) after
    rw [hd] at hclose
    rw [withoutTrivia_opened, List.map_append]
    refine .parens hw ?_ (by simpa [takes, kind] using hclose)
    intro t ht
    obtain ⟨v, _, hv, rfl⟩ := exists_of_mem_takeWhile ht
    exact takes_parenClose_iff.mp hv

/-- Separators stand only behind newlines, trivia aside. -/
def SeparatorsStartLines (row : List Spaced) : Prop :=
  row.IsChain fun v w => w.kind = .separator → v.kind = .newline

/-- On the line of a token that is no separator there is none further right. -/
theorem ne_separator_of_isChain (h : SeparatorsStartLines (v :: row)) (hv : v.kind ≠ .newline) :
    ∀ w ∈ row.takeWhile (takes Ahead.isLineEnd), w.kind ≠ .separator := by
  induction row generalizing v with
  | nil => simp
  | cons u row ih =>
    obtain ⟨hu, hrow⟩ := List.isChain_cons_cons.mp h
    rw [List.takeWhile_cons]
    split
    · rename_i ht
      intro w hw
      rcases List.mem_cons.mp hw with rfl | hw
      · intro hs
        exact hv (hu hs)
      · exact ih hrow (takes_isLineEnd_iff.mp ht) w hw
    · simp

theorem headerEnd_headerLine (row : List Spaced) (h : (headerLine row).2 = [] → ended) :
    ∃ tail, (headerLine row).1 = row.takeWhile (takes Ahead.isLineEnd) ++ tail ∧
      Shape.HeaderEnd ended (tail.map token) := by
  rw [headerLine] at h ⊢
  cases hd : row.dropWhile (takes Ahead.isLineEnd) with
  | nil =>
    rw [hd] at h
    exact ⟨[], by simp [eat, separatorLine], .fileEnd (h rfl)⟩
  | cons v rest =>
    have hv := kind_of_dropWhile_isLineEnd hd
    have heat : eat .newline (v :: rest) = ([v], rest) := by
      rw [eat, if_pos hv]
    simp only [heat]
    fun_cases separatorLine rest with
    | case1 => exact ⟨[v], by simp, .newline hv⟩
    | case2 s rest hs =>
      fun_cases eat .newline rest with
      | case1 => exact ⟨[v, s], by simp, .separator hv hs⟩
      | case2 n rest hn => exact ⟨[v, s, n], by simp, .separatorLine hv hs hn⟩
      | case3 n rest hn => exact ⟨[v, s], by simp, .separator hv hs⟩
    | case3 s rest hs => exact ⟨[v], by simp, .newline hv⟩

theorem contains_headerKeys {kind : TokenKind} (h : Ahead.isKey above kind = true) :
    KindSet.headerKeys.contains (.token kind) = true := by
  rw [Ahead.isKey] at h
  split at h
  · rename_i hk
    rw [hk]
    decide
  · exact h

theorem child_header? (h : header? above row = some (tree, rest)) (hend : rest = [] → ended)
    (hs : SeparatorsStartLines row) :
    ∃ kind children, tree = .node kind children ∧
      Shape.Child ended (.node kind (Tree.withoutTrivia children)) := by
  obtain ⟨key, colon, after, hd, hk, hc, rfl, rfl⟩ := header?_eq_some h
  refine ⟨_, _, rfl, ?_⟩
  have hafter : SeparatorsStartLines (colon :: after) := by
    have hrow := List.takeWhile_append_dropWhile (p := isModifier) (l := row)
    rw [hd] at hrow
    rw [SeparatorsStartLines, ← hrow] at hs
    exact hs.right_of_append.tail
  obtain ⟨tail, htail, hlast⟩ := headerEnd_headerLine after hend
  rw [Tree.withoutTrivia_leaves, htail]
  have hvalue : ∀ t ∈ (after.takeWhile (takes Ahead.isLineEnd)).map token,
      t.kind ≠ .newline ∧ t.kind ≠ .separator := by
    intro t ht
    obtain ⟨w, hmem, hw, rfl⟩ := exists_of_mem_takeWhile ht
    exact ⟨takes_isLineEnd_iff.mp hw, ne_separator_of_isChain hafter (by simp [hc]) w hmem⟩
  have hmodifiers : ∀ t ∈ (row.takeWhile isModifier).map token,
      t.kind = .keyword .and ∨ t.kind = .keyword .not := by
    intro t ht
    obtain ⟨w, _, hw, rfl⟩ := exists_of_mem_takeWhile ht
    exact isModifier_iff.mp hw
  have hchild := Shape.Child.header hmodifiers (contains_headerKeys hk) hc hvalue hlast
  simpa using hchild

theorem child_binding? (h : binding? row = some (tree, rest)) (hend : rest = [] → ended) :
    ∃ kind children, tree = .node kind children ∧
      Shape.Child ended (.node kind (Tree.withoutTrivia children)) := by
  obtain ⟨keyword, after, ts, colon, rest', _, hk, ha, hc, rfl, rfl⟩ := binding?_eq_some h
  have hchild := Shape.Child.binding hk (arguments_arguments? ha) hc (lines_block rest' hend)
  exact ⟨_, _, rfl, by simpa using hchild⟩

theorem child_command? (h : command? row = some (tree, rest)) (hend : rest = [] → ended) :
    ∃ kind children, tree = .node kind children ∧
      Shape.Child ended (.node kind (Tree.withoutTrivia children)) := by
  obtain ⟨first, rule, colon, after, ht, _, hc, rfl, rfl⟩ := command?_eq_some h
  have hrule : ∀ t ∈ (row.takeWhile (takes (Ahead.isIn .ruleEnd))).map token,
      t.kind ≠ .colon ∧ t.kind ≠ .newline := by
    intro t ht
    obtain ⟨w, _, hw, rfl⟩ := exists_of_mem_takeWhile ht
    exact takes_ruleEnd_iff.mp hw
  rw [ht] at hrule
  have hchild := Shape.Child.command hrule hc (lines_block after hend)
  exact ⟨_, _, rfl, by simpa using hchild⟩

theorem child_construct? (h : construct? above row = some (tree, rest)) (hend : rest = [] → ended)
    (hs : SeparatorsStartLines row) :
    ∃ kind children, tree = .node kind children ∧
      Shape.Child ended (.node kind (Tree.withoutTrivia children)) := by
  rcases Option.or_eq_some_iff.mp h with h | ⟨_, h⟩
  · exact child_header? h hend hs
  · rcases Option.or_eq_some_iff.mp h with h | ⟨_, h⟩
    · exact child_binding? h hend
    · exact child_command? h hend

theorem child_next (hend : (next above w row).2 = [] → ended)
    (hs : SeparatorsStartLines (w :: row)) :
    Shape.Child ended ((next above w row).1.recast .withoutTrivia) := by
  have hbare : SeparatorsStartLines (w.bare :: row) := List.isChain_cons.mpr (List.isChain_cons.mp hs)
  unfold next at hend ⊢
  cases h : construct? above (w.bare :: row) with
  | none =>
    rw [Option.getD_none, Tree.recast_leaf]
    exact .token
  | some result =>
    rw [h] at hend
    obtain ⟨kind, children, htree, hchild⟩ := child_construct? h hend hbare
    rw [Option.getD_some, htree, Tree.recast_node]
    exact hchild

theorem shape_rounds (above : Bool) (row : List Spaced) (hs : SeparatorsStartLines row) :
    Shape.File ((rounds above row).map fun round => round.tree.recast .withoutTrivia) := by
  fun_induction rounds above row with
  | case1 above => exact .nil
  | case2 above w row ih =>
    obtain ⟨taken, hrow, _⟩ := splits_next above w row
    have hrest : SeparatorsStartLines (next above w row).2 := by
      rw [SeparatorsStartLines, hrow] at hs
      exact hs.tail.right_of_append
    refine .cons (child_next ?_ hs) (ih hrest)
    intro hnil
    rw [hnil, rounds, List.map_nil]

theorem separatorsStartLines_of_tokens {tail : List Token} (ht : ∀ t ∈ tail, t.isTrivia = true)
    (h : Token.SeparatorsStartLines (tokens row ++ tail)) : SeparatorsStartLines row := by
  rw [Token.SeparatorsStartLines, withoutTrivia_tokens ht] at h
  exact (List.isChain_map token).mp h

end Reading

/-- The tree of a source without its trivia follows the grammar, and no node below the file begins or ends
with trivia. -/
theorem parse_shape (source : List Char) :
    ∃ children diagnostics, parse source = .ok ⟨.node .file children, diagnostics⟩ ∧
      Shape.File (Tree.withoutTrivia children) ∧
      ∀ node ∈ Tree.nodesAll children, node.Trimmed := by
  obtain ⟨row, tail, hs, ht⟩ := Spaced.exists_tokens_eq (tokenize source)
  have hlines := Tokenizer.separatorsStartLines (.ofText source)
  rw [← tokenize, hs] at hlines
  have hrow := Reading.separatorsStartLines_of_tokens ht hlines
  have htrimmed := (Reading.allTrimmed_file (Reading.hasSeparator (tokenize source)) row).append
    (Tree.allTrimmed_map_leaf tail)
  refine ⟨_, _, parse_eq hs ht, ?_, htrimmed⟩
  rw [Reading.withoutTrivia_file _ row ht]
  exact Reading.shape_rounds _ row hrow

end VoiceScript
