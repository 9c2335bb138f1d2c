import VoiceScript.Item
import VoiceScript.Proofs.Dispatch
import VoiceScript.Proofs.Folds
import VoiceScript.Proofs.Shape

namespace VoiceScript

namespace Tree

variable {kind : NodeKind} {children trees : List Tree} {tree : Tree} {token : Token}

/-- The children of a node of a kind. -/
def childrenOf? (kind : NodeKind) : Tree → Option (List Tree)
  | leaf _ => none
  | node k children => if k = kind then some children else none

/-- The nodes of a kind in a row of trees, by their children. -/
def nodesOf (kind : NodeKind) (trees : List Tree) : List (List Tree) :=
  trees.filterMap (childrenOf? kind)

@[simp] theorem nodesOf_nil (kind : NodeKind) : nodesOf kind [] = [] := rfl

@[simp] theorem nodesOf_append (kind : NodeKind) (as bs : List Tree) :
    nodesOf kind (as ++ bs) = nodesOf kind as ++ nodesOf kind bs :=
  List.filterMap_append

@[simp] theorem nodesOf_leaf (kind : NodeKind) (token : Token) (trees : List Tree) :
    nodesOf kind (leaf token :: trees) = nodesOf kind trees := rfl

@[simp] theorem nodesOf_node (kind k : NodeKind) (children trees : List Tree) :
    nodesOf kind (node k children :: trees) =
      if k = kind then children :: nodesOf kind trees else nodesOf kind trees := by
  rw [nodesOf, List.filterMap_cons, childrenOf?]
  split <;> split <;> simp_all [nodesOf]

@[simp] theorem withoutTrivia_leaf (token : Token) (trees : List Tree) :
    withoutTrivia (leaf token :: trees) =
      if token.isTrivia then withoutTrivia trees else leaf token :: withoutTrivia trees := by
  rw [withoutTrivia, recastAll_leaf, Recast.tokens_withoutTrivia, Token.withoutTrivia_cons]
  cases token.isTrivia <;> rfl

theorem significant_leaf (token : Token) (trees : List Tree) :
    significant (leaf token :: trees) =
      if token.isTrivia then significant trees else token :: significant trees := by
  rw [significant, List.filterMap_cons, token?, List.filter_cons]
  cases token.isTrivia <;> rfl

theorem significant_node (kind : NodeKind) (children trees : List Tree) :
    significant (node kind children :: trees) = significant trees := rfl

/-- What is found among the children is found among them without their trivia. -/
theorem significant_eq (trees : List Tree) :
    significant trees = (withoutTrivia trees).filterMap token? := by
  induction trees with
  | nil => rfl
  | cons tree trees ih =>
    cases tree with
    | leaf token =>
      rw [significant_leaf, withoutTrivia_leaf, ih]
      split <;> rfl
    | node kind children =>
      rw [significant_node, withoutTrivia_node, ih]
      rfl

theorem nodesOf_withoutTrivia (kind : NodeKind) (trees : List Tree) :
    nodesOf kind (withoutTrivia trees) = (nodesOf kind trees).map withoutTrivia := by
  induction trees with
  | nil => simp
  | cons tree trees ih =>
    cases tree with
    | leaf token =>
      rw [withoutTrivia_leaf]
      split <;> simp [ih]
    | node k children =>
      rw [withoutTrivia_node, nodesOf_node, nodesOf_node, ih]
      split <;> rfl

theorem leavesAll_withoutTrivia (trees : List Tree) :
    leavesAll (withoutTrivia trees) = Token.withoutTrivia (leavesAll trees) := by
  rw [withoutTrivia, leavesAll_recastAll, Recast.tokens_withoutTrivia]

@[simp] theorem filterMap_token?_map_leaf (tokens : List Token) :
    (tokens.map leaf).filterMap token? = tokens := by
  rw [List.filterMap_map]
  exact List.filterMap_some

end Tree

open VoiceScript.Tree

variable {ended : Prop} {children trees : List Tree} {tree : Tree} {token : Token}

theorem Command.rule?_eq (c : Command) : c.rule? = (nodesOf .rule c.children).head?.map Rule.mk := by
  rw [rule?, nodesOf, List.head?_filterMap, List.map_findSome?]
  congr 1
  funext tree
  cases tree with
  | leaf token => rfl
  | node kind children => cases kind <;> rfl

theorem Binding.arguments?_eq (b : Binding) :
    b.arguments? = (nodesOf .bindingArgs b.children).head?.map Arguments.mk := by
  rw [arguments?, nodesOf, List.head?_filterMap, List.map_findSome?]
  congr 1
  funext tree
  cases tree with
  | leaf token => rfl
  | node kind children => cases kind <;> rfl

theorem Statement.filterMap_ofTree? (trees : List Tree) :
    trees.filterMap ofTree? = (nodesOf .statement trees).map Statement.mk := by
  rw [nodesOf, List.map_filterMap]
  congr 1
  funext tree
  cases tree with
  | leaf token => rfl
  | node kind children => cases kind <;> rfl

theorem Command.tokens_rule? (c : Command) : c.rule?.map Rule.tokens =
    (nodesOf .rule (withoutTrivia c.children)).head?.map (List.filterMap token?) := by
  rw [rule?_eq, nodesOf_withoutTrivia, List.head?_map, Option.map_map, Option.map_map]
  congr 1
  funext children
  exact significant_eq children

theorem Binding.withoutTrivia_arguments? (b : Binding) :
    b.arguments?.map (fun a => withoutTrivia a.children) =
      (nodesOf .bindingArgs (withoutTrivia b.children)).head? := by
  rw [arguments?_eq, nodesOf_withoutTrivia, List.head?_map, Option.map_map]
  rfl

theorem Statement.tokens_filterMap_ofTree? (trees : List Tree) :
    (trees.filterMap ofTree?).map tokens =
      (nodesOf .statement (withoutTrivia trees)).map (List.filterMap token?) := by
  rw [filterMap_ofTree?, nodesOf_withoutTrivia, List.map_map, List.map_map]
  congr 1
  funext children
  exact significant_eq children

theorem find?_append_of_forall {α : Type} {as bs : List α} {test : α → Bool}
    (h : ∀ a ∈ as, test a = false) : (as ++ bs).find? test = bs.find? test := by
  rw [List.find?_append, List.find?_eq_none.mpr (by simpa using h), Option.none_or]

theorem KindSet.mem_of_headerKeys {kind : TokenKind} (h : headerKeys.contains (.token kind) = true) :
    kind ∈ [.identifier, .word, .variableRef, .keyword .app, .keyword .tag, .keyword .mode] := by
  rw [headerKeys, contains_ofTokens] at h
  exact List.contains_iff_mem.mp h

theorem KindSet.mem_of_bindingKeywords {kind : TokenKind}
    (h : bindingKeywords.contains (.token kind) = true) :
    kind ∈ [.keyword .settings, .keyword .tag, .keyword .app, .keyword .key, .keyword .face, .keyword .deck,
      .keyword .gamepad, .keyword .noise, .keyword .parrot] := by
  rw [bindingKeywords, contains_ofTokens] at h
  exact List.contains_iff_mem.mp h

namespace Header

/-- The tokens of a header by its views: the modifiers, the key, the colon and the value, and then what ends
the line. -/
structure Parts (h : Header) (key colon : Token) (newline last : Option Token) : Prop where
  isModifier : ∀ t ∈ h.modifiers, t.kind = .keyword .and ∨ t.kind = .keyword .not
  key_eq : h.key? = some key
  colon_eq : h.colon? = some colon
  newline_kind : ∀ t ∈ newline, t.kind = .newline
  last_kind : ∀ t ∈ last, t.kind = .newline
  tokens : Token.withoutTrivia h.node.leaves =
    h.modifiers ++ key :: colon :: h.value ++ newline.toList ++ h.separator?.toList ++ last.toList

variable {h : Header} {modifiers value tail : List Token} {key colon : Token}

theorem isModifier_iff :
    isModifier token = true ↔ token.kind = .keyword .and ∨ token.kind = .keyword .not := by
  simp [isModifier]

theorem isModifier_key (hk : KindSet.headerKeys.contains (.token key.kind) = true) :
    isModifier key = false := by
  have hkind := KindSet.mem_of_headerKeys hk
  rw [← Bool.not_eq_true, isModifier_iff]
  rintro (h | h) <;> simp [h] at hkind

theorem modifiers_eq (hs : significant h.children = modifiers ++ key :: colon :: value ++ tail)
    (hm : ∀ t ∈ modifiers, isModifier t = true) (hk : isModifier key = false) :
    h.modifiers = modifiers := by
  rw [Header.modifiers, hs, List.append_assoc, List.takeWhile_append_of_pos hm, List.cons_append,
    List.takeWhile_cons_of_neg (by simp [hk]), List.append_nil]

theorem key?_eq (hs : significant h.children = modifiers ++ key :: colon :: value ++ tail)
    (hm : ∀ t ∈ modifiers, isModifier t = true) (hk : isModifier key = false) :
    h.key? = some key := by
  rw [key?, hs, List.append_assoc, find?_append_of_forall (fun t ht => by simp [hm t ht]),
    List.cons_append, List.find?_cons_of_pos (by simp [hk])]

theorem colon?_eq (hs : significant h.children = modifiers ++ key :: colon :: value ++ tail)
    (hbefore : ∀ t ∈ modifiers ++ [key], t.kind ≠ .colon) (hc : colon.kind = .colon) :
    h.colon? = some colon := by
  have hsplit : significant h.children = (modifiers ++ [key]) ++ colon :: (value ++ tail) := by
    simp [hs]
  rw [colon?, firstOfKind?, hsplit, find?_append_of_forall (fun t ht => by simpa using hbefore t ht),
    List.find?_cons_of_pos (by simp [hc])]

theorem value_eq (hs : significant h.children = modifiers ++ key :: colon :: value ++ tail)
    (hbefore : ∀ t ∈ modifiers ++ [key], t.kind ≠ .colon) (hc : colon.kind = .colon)
    (hv : ∀ t ∈ value, t.kind ≠ .newline) (ht : ∀ t ∈ tail.head?, t.kind = .newline) :
    h.value = value := by
  have hsplit : significant h.children = (modifiers ++ [key]) ++ colon :: (value ++ tail) := by
    simp [hs]
  have hdrop : (significant h.children).dropWhile (fun t => t.kind != .colon) =
      colon :: (value ++ tail) := by
    rw [hsplit, List.dropWhile_append_of_pos (by simpa using hbefore),
      List.dropWhile_cons_of_neg (by simp [hc])]
  simp only [Header.value, hdrop, List.drop_succ_cons, List.drop_zero]
  rw [List.takeWhile_append_of_pos (by simpa using hv)]
  cases tail with
  | nil => simp
  | cons t tail => simp [ht t rfl]

theorem separator?_eq (hs : significant h.children = modifiers ++ key :: colon :: value ++ tail)
    (hbefore : ∀ t ∈ modifiers ++ key :: colon :: value, t.kind ≠ .separator) :
    h.separator? = tail.find? fun t => t.kind == .separator := by
  rw [separator?, firstOfKind?, hs, find?_append_of_forall (fun t ht => by simpa using hbefore t ht)]

/-- A newline ends the line of a header if anything does, and the separator stands behind it. -/
theorem exists_tail_eq (hend : Shape.HeaderEnd ended tail) : ∃ newline last : Option Token,
    (∀ t ∈ newline, t.kind = .newline) ∧ (∀ t ∈ last, t.kind = .newline) ∧
      (∀ t ∈ tail.head?, t.kind = .newline) ∧
      tail = newline.toList ++ (tail.find? fun t => t.kind == .separator).toList ++ last.toList := by
  cases hend with
  | fileEnd _ => exact ⟨none, none, by simp⟩
  | @newline newline hn => exact ⟨some newline, none, by simp [hn]⟩
  | @separator newline separator hn hs => exact ⟨some newline, none, by simp [hn, hs]⟩
  | @separatorLine newline separator last hn hs hl =>
    exact ⟨some newline, some last, by simp [hn, hs, hl]⟩

/-- No colon and no separator stands before the colon of a header. -/
theorem kind_of_front (hm : ∀ t ∈ modifiers, t.kind = .keyword .and ∨ t.kind = .keyword .not)
    (hk : KindSet.headerKeys.contains (.token key.kind) = true) :
    ∀ t ∈ modifiers ++ [key], t.kind ≠ .colon ∧ t.kind ≠ .separator := by
  intro t ht
  rcases List.mem_append.mp ht with ht | ht
  · rcases hm t ht with h | h <;> simp [h]
  · obtain rfl := List.mem_singleton.mp ht
    have hkind := KindSet.mem_of_headerKeys hk
    constructor
    · intro h
      simp [h] at hkind
    · intro h
      simp [h] at hkind

/-- The views find what the grammar puts into a header. -/
theorem exists_parts (h : Header)
    (hshape : Shape.Child ended (.node .header (withoutTrivia h.children))) :
    ∃ key colon newline last, h.Parts key colon newline last := by
  generalize hchildren : withoutTrivia h.children = trees at hshape
  cases hshape with
  | @header modifiers value tail key colon hm hk hc hv hend =>
    obtain ⟨newline, last, hnewline, hlast, hhead, htail⟩ := exists_tail_eq hend
    have hs : significant h.children = modifiers ++ key :: colon :: value ++ tail := by
      rw [significant_eq, hchildren, filterMap_token?_map_leaf]
    have hmodifier : ∀ t ∈ modifiers, isModifier t = true := fun t ht => isModifier_iff.mpr (hm t ht)
    have hfront := kind_of_front hm hk
    have hcolon : ∀ t ∈ modifiers ++ [key], t.kind ≠ .colon := fun t ht => (hfront t ht).1
    have hseparator : ∀ t ∈ modifiers ++ key :: colon :: value, t.kind ≠ .separator := by
      intro t ht
      rw [List.append_cons, List.mem_append, List.mem_cons] at ht
      rcases ht with ht | rfl | ht
      · exact (hfront t ht).2
      · simp [hc]
      · exact (hv t ht).2
    have hmodifiers := modifiers_eq hs hmodifier (isModifier_key hk)
    refine ⟨key, colon, newline, last, ?_, key?_eq hs hmodifier (isModifier_key hk),
      colon?_eq hs hcolon hc, hnewline, hlast, ?_⟩
    · rw [hmodifiers]
      exact hm
    · have htokens : Token.withoutTrivia (leavesAll h.children) = significant h.children := by
        rw [← leavesAll_withoutTrivia, hchildren, leavesAll_map_leaf, hs]
      rw [node, leaves_node, htokens, hs, hmodifiers,
        value_eq hs hcolon hc (fun t ht => (hv t ht).1) hhead, separator?_eq hs hseparator]
      conv => lhs; rw [htail]
      simp

end Header

/-- Rows of tokens one after the other, with newlines anywhere between them. -/
inductive Interleaved : List (List Token) → List Token → Prop
  | nil : Interleaved [] []
  | newline {rows : List (List Token)} {tokens : List Token} {newline : Token}
      (hn : newline.kind = .newline) (rest : Interleaved rows tokens) :
      Interleaved rows (newline :: tokens)
  | row {rows : List (List Token)} {tokens : List Token} (row : List Token)
      (rest : Interleaved rows tokens) : Interleaved (row :: rows) (row ++ tokens)

/-- The statements of a block hold all of its tokens but newlines. -/
theorem interleaved_of_lines {afterColon : Bool} (h : Shape.Lines ended afterColon trees) :
    Interleaved ((nodesOf .statement trees).map (List.filterMap token?)) (leavesAll trees) := by
  induction h with
  | nil => exact .nil
  | newline hn _ ih => exact .newline hn ih
  | @statement _ first line rest _ _ _ _ ih =>
    rw [nodesOf_node, if_pos rfl, List.map_cons, filterMap_token?_map_leaf, leavesAll_cons, leaves_node,
      leavesAll_map_leaf]
    exact .row (first :: line) ih

/-- The tokens of a command by its views: the rule, the colon, and the statements with newlines between them. -/
structure Command.Parts (c : Command) (rule : Rule) (colon : Token) (body : List Token) : Prop where
  rule_eq : c.rule? = some rule
  filled : rule.tokens ≠ []
  colon_eq : c.colon? = some colon
  tokens : Token.withoutTrivia c.node.leaves = rule.tokens ++ colon :: body
  statements : Interleaved (c.statements.map Statement.tokens) body

/-- The tokens of a binding by its views: the keyword, the arguments if there are any, the colon, and the
statements with newlines between them. -/
structure Binding.Parts (b : Binding) (keyword colon : Token) (body : List Token) : Prop where
  keyword_eq : b.keyword? = some keyword
  colon_eq : b.colon? = some colon
  tokens : Token.withoutTrivia b.node.leaves =
    keyword :: (b.arguments?.elim [] fun a => Token.withoutTrivia a.node.leaves) ++ colon :: body
  statements : Interleaved (b.statements.map Statement.tokens) body

theorem Command.exists_parts (c : Command)
    (hshape : Shape.Child ended (.node .command (withoutTrivia c.children))) :
    ∃ rule colon body, c.Parts rule colon body := by
  generalize hchildren : withoutTrivia c.children = trees at hshape
  cases hshape with
  | @command first colon ruleTokens block hr hc hb =>
    have hrule := c.tokens_rule?
    simp only [hchildren, nodesOf_node, if_true, List.head?_cons, Option.map_some,
      filterMap_token?_map_leaf] at hrule
    obtain ⟨rule, hrule, htokens⟩ := Option.map_eq_some_iff.mp hrule
    have hs : significant c.children = colon :: block.filterMap token? := by
      rw [significant_eq, hchildren]
      rfl
    refine ⟨rule, colon, leavesAll block, hrule, by simp [htokens], ?_, ?_, ?_⟩
    · rw [colon?, firstOfKind?, hs, List.find?_cons_of_pos (by simp [hc])]
    · rw [node, leaves_node, ← leavesAll_withoutTrivia, hchildren, htokens]
      simp
    · rw [statements, Statement.tokens_filterMap_ofTree?, hchildren]
      simpa using interleaved_of_lines hb

theorem filterMap_token?_arguments (h : Shape.Arguments trees) : trees.filterMap token? = [] := by
  cases h <;> rfl

theorem nodesOf_statement_arguments (h : Shape.Arguments trees) : nodesOf .statement trees = [] := by
  cases h <;> rfl

theorem nodesOf_bindingArgs_lines {afterColon : Bool} (h : Shape.Lines ended afterColon trees) :
    nodesOf .bindingArgs trees = [] := by
  induction h with
  | nil => rfl
  | newline _ _ ih => exact ih
  | statement _ _ _ _ ih => exact ih

/-- The arguments of a binding are its only node of their kind. -/
theorem nodesOf_bindingArgs_binding {keyword colon : Token} {arguments block : List Tree}
    (hb : Shape.Lines ended true block) :
    nodesOf .bindingArgs (.leaf keyword :: arguments ++ .leaf colon :: block) =
      nodesOf .bindingArgs arguments := by
  simp [nodesOf_bindingArgs_lines hb]

theorem Binding.tokens_arguments? {b : Binding} {arguments : List Tree}
    (h : nodesOf .bindingArgs (withoutTrivia b.children) = nodesOf .bindingArgs arguments)
    (ha : Shape.Arguments arguments) :
    (b.arguments?.elim [] fun a => Token.withoutTrivia a.node.leaves) = leavesAll arguments := by
  have hview := b.withoutTrivia_arguments?
  rw [h] at hview
  have hleaves : (b.arguments?.elim [] fun a => Token.withoutTrivia a.node.leaves) =
      (b.arguments?.map fun a => withoutTrivia a.children).elim [] leavesAll := by
    cases b.arguments? with
    | none => rfl
    | some a => exact (leavesAll_withoutTrivia a.children).symm
  rw [hleaves, hview]
  cases ha with
  | none => rfl
  | parens _ _ _ => simp

theorem Binding.exists_parts (b : Binding)
    (hshape : Shape.Child ended (.node .binding (withoutTrivia b.children))) :
    ∃ keyword colon body, b.Parts keyword colon body := by
  generalize hchildren : withoutTrivia b.children = trees at hshape
  cases hshape with
  | @binding keyword colon arguments block hk ha hc hb =>
    have hs : significant b.children = keyword :: colon :: block.filterMap token? := by
      rw [significant_eq, hchildren]
      simp [token?, filterMap_token?_arguments ha]
    have hnodes : nodesOf .bindingArgs (withoutTrivia b.children) = nodesOf .bindingArgs arguments := by
      rw [hchildren, nodesOf_bindingArgs_binding hb]
    refine ⟨keyword, colon, leavesAll block, ?_, ?_, ?_, ?_⟩
    · rw [keyword?, hs, List.head?_cons]
    · have hkeyword : keyword.kind ≠ .colon := by
        intro hcolon
        simpa [hcolon] using KindSet.mem_of_bindingKeywords hk
      rw [colon?, firstOfKind?, hs, List.find?_cons_of_neg (by simpa using hkeyword),
        List.find?_cons_of_pos (by simp [hc])]
    · rw [node, leaves_node, ← leavesAll_withoutTrivia, hchildren, tokens_arguments? hnodes ha]
      simp
    · rw [statements, Statement.tokens_filterMap_ofTree?, hchildren]
      simpa [nodesOf_statement_arguments ha] using interleaved_of_lines hb

/-- The views of a construct split its tokens. -/
def Item.Splits : Item → Prop
  | header h => ∃ key colon newline last, h.Parts key colon newline last
  | command c => ∃ rule colon body, c.Parts rule colon body
  | binding b => ∃ keyword colon body, b.Parts keyword colon body

theorem Shape.File.exists_child (h : Shape.File trees) (hm : tree ∈ trees) :
    ∃ ended, Shape.Child ended tree := by
  induction h with
  | nil => cases hm
  | cons hc _ ih =>
    rcases List.mem_cons.mp hm with rfl | hm
    · exact ⟨_, hc⟩
    · exact ih hm

theorem Shape.File.exists_child_of_node {kind : NodeKind} (h : Shape.File (withoutTrivia trees))
    (hm : node kind children ∈ trees) : ∃ ended, Shape.Child ended (node kind (withoutTrivia children)) := by
  obtain ⟨before, after, rfl⟩ := List.append_of_mem hm
  exact h.exists_child (by simp)

/-- The views of every construct of a file in shape split its tokens. -/
theorem File.splits_items (h : Shape.File (withoutTrivia trees)) :
    ∀ item ∈ (⟨trees⟩ : File).items, item.Splits := by
  intro item hitem
  have hmem : item.node ∈ (Tree.node .file trees).children := Fold.node_mem_of_mem_items hitem
  cases item with
  | header construct =>
    obtain ⟨ended, hshape⟩ := h.exists_child_of_node hmem
    exact construct.exists_parts hshape
  | command construct =>
    obtain ⟨ended, hshape⟩ := h.exists_child_of_node hmem
    exact construct.exists_parts hshape
  | binding construct =>
    obtain ⟨ended, hshape⟩ := h.exists_child_of_node hmem
    exact construct.exists_parts hshape

theorem mem_leavesAll_of_mem_significant (h : token ∈ significant trees) : token ∈ leavesAll trees := by
  have hmem := (List.mem_filter.mp h).1
  obtain ⟨tree, htree, htoken⟩ := List.mem_filterMap.mp hmem
  cases tree with
  | leaf t =>
    cases htoken
    exact (leaves_isInfix htree).subset (by simp)
  | node kind children => cases htoken

theorem mem_leavesAll_of_mem_items {item : Item} (hitem : item ∈ (⟨trees⟩ : File).items)
    (h : token ∈ item.node.leaves) : token ∈ leavesAll trees := by
  have hmem : item.node ∈ (Tree.node .file trees).children := Fold.node_mem_of_mem_items hitem
  exact (leaves_isInfix hmem).subset h

theorem countP_items_eq_zero (h : token ∉ leavesAll trees) :
    (⟨trees⟩ : File).items.countP (fun item => token ∈ item.node.leaves) = 0 := by
  rw [List.countP_eq_zero]
  intro item hitem hin
  exact h (mem_leavesAll_of_mem_items hitem (of_decide_eq_true hin))

/-- A node of a file in shape is a construct. -/
theorem Shape.File.exists_item (h : Shape.File (withoutTrivia trees)) (kind : NodeKind)
    (children : List Tree) (hnode : node kind children ∈ trees) :
    ∃ item, Item.ofTree? (node kind children) = some item := by
  obtain ⟨ended, hchild⟩ := h.exists_child_of_node hnode
  generalize withoutTrivia children = trimmed at hchild
  cases hchild <;> exact ⟨_, rfl⟩

theorem mem_significant_leaf_iff {t : Token} (ht : token.isTrivia = false) :
    token ∈ significant (leaf t :: trees) ↔ token = t ∨ token ∈ significant trees := by
  rw [significant_leaf]
  split
  · rename_i h
    have hne : token ≠ t := by
      rintro rfl
      simp [ht] at h
    simp [hne]
  · exact List.mem_cons

/-- Where every node is a construct, a token that is no trivia is in one of them, or stands by itself and is
in none. -/
theorem countP_items
    (hnodes : ∀ kind children, node kind children ∈ trees →
      ∃ item, Item.ofTree? (node kind children) = some item)
    (hnodup : (leavesAll trees).Nodup) (hmem : token ∈ leavesAll trees) (ht : token.isTrivia = false) :
    (⟨trees⟩ : File).items.countP (fun item => token ∈ item.node.leaves) =
      if token ∈ significant trees then 0 else 1 := by
  induction trees with
  | nil => simp at hmem
  | cons tree trees ih =>
    have ih := ih fun kind children h => hnodes kind children (List.mem_cons_of_mem _ h)
    rw [leavesAll_cons, List.nodup_append] at hnodup
    obtain ⟨_, hrest, hapart⟩ := hnodup
    rw [leavesAll_cons, List.mem_append] at hmem
    cases tree with
    | leaf t =>
      have hitems : (⟨leaf t :: trees⟩ : File).items = (⟨trees⟩ : File).items := rfl
      simp only [hitems, mem_significant_leaf_iff ht]
      rcases hmem with hmem | hmem
      · have htoken : token = t := by simpa using hmem
        have hafter : token ∉ leavesAll trees := fun h => hapart token hmem token h rfl
        rw [countP_items_eq_zero hafter, if_pos (.inl htoken)]
      · have hne : token ≠ t := fun h => hapart t (by simp) token hmem h.symm
        simp only [ih hrest hmem, hne, false_or]
    | node kind children =>
      obtain ⟨item, hitem⟩ := hnodes kind children (by simp)
      have hitems : (⟨node kind children :: trees⟩ : File).items = item :: (⟨trees⟩ : File).items := by
        rw [File.items, List.filterMap_cons_some hitem, File.items]
      rw [hitems, List.countP_cons, ← Item.eq_node hitem, significant_node]
      simp only [decide_eq_true_eq]
      rcases hmem with hmem | hmem
      · have hafter : token ∉ leavesAll trees := fun h => hapart token hmem token h rfl
        rw [countP_items_eq_zero hafter, if_pos hmem, if_neg fun h => hafter (mem_leavesAll_of_mem_significant h)]
      · have hout : token ∉ (node kind children).leaves := fun h => hapart token h token hmem rfl
        rw [ih hrest hmem, if_neg hout, Nat.add_zero]

/-- What is known of the tree of a parse: its leaves are the tokens of the source, it is in shape, and each of
its children is what the tokens say. -/
structure Parsed (source : List Char) (children : List Tree) : Prop where
  leaves : leavesAll children = tokenize source
  shape : Shape.File (withoutTrivia children)
  trimmed : AllTrimmed children
  settled : ∀ before child after, children = before ++ child :: after →
    Settled (tokenize source) (leavesAll before) child after

theorem exists_parsed (source : List Char) :
    ∃ children diagnostics, parse source = .ok ⟨.node .file children, diagnostics⟩ ∧
      Parsed source children := by
  obtain ⟨row, tail, hs, ht⟩ := Spaced.exists_tokens_eq (tokenize source)
  have hlines := Tokenizer.separatorsStartLines (.ofText source)
  rw [← tokenize, hs] at hlines
  have hrow := Reading.separatorsStartLines_of_tokens ht hlines
  have hall : tokenize source = [] ++ Spaced.tokens row ++ tail := hs
  refine ⟨_, _, parse_eq hs ht, ?_, ?_, ?_, ?_⟩
  · rw [leavesAll_append, Reading.leavesAll_file, leavesAll_map_leaf, hs]
  · rw [Reading.withoutTrivia_file _ row ht]
    exact Reading.shape_rounds _ row hrow
  · exact (Reading.allTrimmed_file _ row).append (allTrimmed_map_leaf tail)
  · intro before child after h
    exact Reading.file_settled hall (tokenize_consecutive source) ht (by simp [Reading.hasSeparator]) h

/-- The views lose nothing: what they name of a construct makes up all its tokens but the trivia, in order.
Each token of the source that is no trivia is in just one construct, or in none and among those that stand by
themselves. -/
theorem views_lossless (source : List Char) :
    ∃ result, parse source = .ok result ∧
      (∀ item ∈ (File.ofTree result.tree).items, item.Splits) ∧
      ∀ token ∈ tokenize source, token.isTrivia = false →
        (File.ofTree result.tree).items.countP (fun item => token ∈ item.node.leaves) =
          if token ∈ (File.ofTree result.tree).dropped then 0 else 1 := by
  obtain ⟨children, diagnostics, hparse, parsed⟩ := exists_parsed source
  refine ⟨_, hparse, File.splits_items parsed.shape, ?_⟩
  intro token hmem ht
  rw [← parsed.leaves] at hmem
  have hnodup := (tokenize_consecutive source).toOrdered.nodup
  rw [← parsed.leaves] at hnodup
  exact countP_items parsed.shape.exists_item hnodup hmem ht

end VoiceScript
