import VoiceScript.Proofs.Views

namespace VoiceScript

open VoiceScript.Tree

variable {ended : Prop} {tokens leaves inner between stream all : List Token}
  {opening closing keyword : Token} {trees : List Tree} {child : Tree}

/-- Tokens in which the parentheses are balanced. -/
inductive Token.Balanced : List Token → Prop
  | nil : Balanced []
  | token {token : Token} {rest : List Token} (ho : token.kind ≠ .parenOpen)
      (hc : token.kind ≠ .parenClose) (tail : Balanced rest) : Balanced (token :: rest)
  | parens {opening closing : Token} {inner rest : List Token} (ho : opening.kind = .parenOpen)
      (hc : closing.kind = .parenClose) (body : Balanced inner) (tail : Balanced rest) :
      Balanced (opening :: inner ++ closing :: rest)

/-- An opening parenthesis is closed further on. -/
theorem Token.Balanced.kind_ne_parenOpen (h : Balanced tokens) (hc : ∀ t ∈ tokens, t.kind ≠ .parenClose) :
    ∀ t ∈ tokens, t.kind ≠ .parenOpen := by
  induction h with
  | nil => simp
  | token ho _ _ ih =>
    intro t ht
    rcases List.mem_cons.mp ht with rfl | ht
    · exact ho
    · exact ih (fun u hu => hc u (List.mem_cons_of_mem _ hu)) t ht
  | parens _ hclosing _ _ _ _ => exact absurd hclosing (hc _ (by simp))

/-- A row that begins and ends with what is no trivia, by what it is without trivia. -/
theorem exists_row_between (hfirst : ∃ t, leaves.head? = some t ∧ t.isTrivia = false)
    (hlast : ∃ t, leaves.getLast? = some t ∧ t.isTrivia = false)
    (h : Token.withoutTrivia leaves = opening :: inner ++ [closing]) :
    ∃ between, leaves = opening :: between ++ [closing] ∧ Token.withoutTrivia between = inner := by
  obtain ⟨first, hhead, hfirst⟩ := hfirst
  obtain ⟨last, hgetLast, hlast⟩ := hlast
  obtain ⟨rest, rfl⟩ := List.head?_eq_some_iff.mp hhead
  rw [Token.withoutTrivia_cons, hfirst] at h
  obtain ⟨rfl, hrest⟩ := List.cons.inj h
  rcases List.eq_nil_or_concat' rest with rfl | ⟨between, t, rfl⟩
  · simp [Token.withoutTrivia] at hrest
  · rw [← List.cons_append, List.getLast?_concat] at hgetLast
    obtain rfl := Option.some.inj hgetLast
    rw [Token.withoutTrivia_append, Token.withoutTrivia_cons, hlast] at hrest
    obtain ⟨hinner, hclosing⟩ := List.append_inj' hrest rfl
    obtain ⟨rfl, _⟩ := List.cons.inj hclosing
    exact ⟨between, rfl, hinner⟩

theorem Shape.Arguments.of_head? {children : List Tree} (h : Shape.Arguments trees)
    (hhead : (nodesOf .bindingArgs trees).head? = some children) :
    Shape.Arguments [.node .bindingArgs children] := by
  cases h with
  | none => cases hhead
  | parens ho hi hc =>
    cases hhead
    exact .parens ho hi hc

namespace Arguments

/-- Arguments go from an opening parenthesis to the first closing one. -/
structure Encloses (a : Arguments) (opening : Token) (between : List Token) (closing : Token) : Prop where
  leaves : a.node.leaves = opening :: between ++ [closing]
  opening_kind : opening.kind = .parenOpen
  between_kind : ∀ t ∈ between, t.kind ≠ .parenClose
  closing_kind : closing.kind = .parenClose

variable {a : Arguments}

theorem Encloses.span (h : a.Encloses opening between closing) :
    a.node.span = ⟨opening.start, closing.stop⟩ := by
  have hextent : extent a.node.leaves = some ⟨opening.start, closing.stop⟩ := by
    rw [h.leaves]
    exact extent_eq_some_iff.mpr ⟨opening, closing, rfl, List.getLast?_concat, rfl⟩
  rw [Tree.span, hextent, Option.getD_some]

theorem exists_encloses (hshape : Shape.Arguments [.node .bindingArgs (withoutTrivia a.children)])
    (htrimmed : a.node.Trimmed) : ∃ opening between closing, a.Encloses opening between closing ∧
      a.tokens = (Token.withoutTrivia between).filter
        fun t => t.kind != .parenOpen && t.kind != .newline := by
  generalize hchildren : withoutTrivia a.children = trees at hshape
  cases hshape with
  | @parens opening closing inner ho hi hc =>
    have hleaves : Token.withoutTrivia a.node.leaves = opening :: inner ++ [closing] := by
      rw [node, leaves_node, ← leavesAll_withoutTrivia, hchildren, leavesAll_map_leaf]
    obtain ⟨between, hbetween, hinner⟩ := exists_row_between htrimmed.first htrimmed.last hleaves
    refine ⟨opening, between, closing, ⟨hbetween, ho, ?_, hc⟩, ?_⟩
    · intro t ht hkind
      refine hi t ?_ hkind
      rw [← hinner]
      exact List.mem_filter.mpr ⟨ht, by simp [Token.isTrivia, TokenKind.isTrivia, hkind]⟩
    · have hinside : ∀ t ∈ inner, (t.kind != .parenOpen && t.kind != .parenClose && t.kind != .newline) =
          (t.kind != .parenOpen && t.kind != .newline) := by
        intro t ht
        rw [bne_iff_ne.mpr (hi t ht), Bool.and_true]
      rw [tokens, significant_eq, hchildren, filterMap_token?_map_leaf, hinner]
      simp [ho, hc, List.filter_congr hinside]

end Arguments

namespace Binding

theorem node_mem_of_arguments? {b : Binding} {a : Arguments} (h : b.arguments? = some a) :
    a.node ∈ b.children := by
  obtain ⟨tree, hmem, hview⟩ := List.exists_of_findSome?_eq_some h
  split at hview <;> cases hview
  exact hmem

/-- The arguments that a binding names are between parentheses. -/
theorem exists_encloses {b : Binding} {a : Arguments}
    (hshape : Shape.Child ended (.node .binding (withoutTrivia b.children)))
    (htrimmed : AllTrimmed b.children) (ha : b.arguments? = some a) :
    ∃ opening between closing, a.Encloses opening between closing ∧
      a.tokens = (Token.withoutTrivia between).filter
        fun t => t.kind != .parenOpen && t.kind != .newline := by
  have htrimmed := (AllTrimmed.of_mem htrimmed (node_mem_of_arguments? ha)).1
  have hview := b.withoutTrivia_arguments?
  rw [ha] at hview
  generalize withoutTrivia b.children = trees at hshape hview
  cases hshape with
  | binding hk hargs hc hb =>
    rw [nodesOf_bindingArgs_binding hb] at hview
    exact Arguments.exists_encloses (hargs.of_head? hview.symm) htrimmed

end Binding

/-- Whatever the arguments of a binding, what is found between their parentheses is what stands there, except
for trivia and newlines and for opening parentheses. -/
theorem arguments_between_parentheses (source : List Char) :
    ∃ result, parse source = .ok result ∧
      ∀ binding ∈ (File.ofTree result.tree).bindings, ∀ arguments ∈ binding.arguments?,
        ∃ opening between closing, arguments.Encloses opening between closing ∧
          arguments.tokens = (Token.withoutTrivia between).filter
            (fun t => t.kind != .parenOpen && t.kind != .newline) ∧
          (arguments.tokens = (Token.withoutTrivia between).filter (fun t => t.kind != .newline) ↔
            ∀ t ∈ between, t.kind ≠ .parenOpen) := by
  obtain ⟨children, diagnostics, hparse, parsed⟩ := exists_parsed source
  refine ⟨_, hparse, ?_⟩
  intro binding hbinding arguments harguments
  obtain ⟨item, hitem, hview⟩ := List.mem_filterMap.mp hbinding
  split at hview
  all_goals cases hview
  have hnode : binding.node ∈ children := Fold.node_mem_of_mem_items hitem
  obtain ⟨ended, hshape⟩ := parsed.shape.exists_child_of_node hnode
  obtain ⟨opening, between, closing, hencloses, htokens⟩ :=
    Binding.exists_encloses hshape (AllTrimmed.of_mem parsed.trimmed hnode).2 harguments
  refine ⟨opening, between, closing, hencloses, htokens, ?_⟩
  rw [htokens, ← List.filter_filter, List.filter_eq_self]
  constructor
  · intro h t ht hkind
    have hmem : t ∈ (Token.withoutTrivia between).filter fun t => t.kind != .newline :=
      List.mem_filter.mpr ⟨List.mem_filter.mpr
        ⟨ht, by simp [Token.isTrivia, TokenKind.isTrivia, hkind]⟩, by simp [hkind]⟩
    exact bne_iff_ne.mp (h t hmem) hkind
  · intro h t ht
    have hmem := (List.mem_filter.mp (List.mem_filter.mp ht).1).1
    exact bne_iff_ne.mpr (h t hmem)

/-- An opening parenthesis among the arguments is not found there. -/
theorem inner_parenthesis_not_named :
    ∃ result, parse "key((a): b".toList = .ok result ∧
      ∃ binding ∈ (File.ofTree result.tree).bindings, ∃ arguments ∈ binding.arguments?,
        arguments.node.leaves =
          [⟨.parenOpen, 3, ['(']⟩, ⟨.parenOpen, 4, ['(']⟩, ⟨.word, 5, ['a']⟩, ⟨.parenClose, 6, [')']⟩] ∧
        arguments.tokens = [⟨.word, 5, ['a']⟩] := by
  have hviews : (parse "key((a): b".toList).map (fun result =>
      (File.ofTree result.tree).bindings.map fun binding =>
        binding.arguments?.map fun arguments => (arguments.node.leaves, arguments.tokens)) =
      .ok [some ([⟨.parenOpen, 3, ['(']⟩, ⟨.parenOpen, 4, ['(']⟩, ⟨.word, 5, ['a']⟩,
        ⟨.parenClose, 6, [')']⟩], [⟨.word, 5, ['a']⟩])] := by
    decide +kernel
  obtain ⟨children, diagnostics, hparse, _⟩ := exists_parse "key((a): b".toList
  rw [hparse] at hviews
  obtain ⟨binding, hbindings, hbinding⟩ := List.map_eq_singleton_iff.mp (Except.ok.inj hviews)
  obtain ⟨arguments, harguments, hview⟩ := Option.map_eq_some_iff.mp hbinding
  obtain ⟨hleaves, htokens⟩ := Prod.mk.inj hview
  exact ⟨_, hparse, binding, by simp [hbindings], arguments, harguments, hleaves, htokens⟩

/-- A binding keyword, balanced parentheses and a colon. -/
structure BalancedHeader (stream : List Token) (keyword opening : Token) (inner : List Token)
    (closing : Token) : Prop where
  keyword_kind : KindSet.bindingKeywords.contains (.token keyword.kind) = true
  opening_kind : opening.kind = .parenOpen
  balanced : Token.Balanced inner
  closing_kind : closing.kind = .parenClose
  split : ∃ colon rest, stream = keyword :: opening :: (inner ++ closing :: colon :: rest) ∧
    colon.kind = .colon

/-- A binding with arguments from one token to another. -/
def Binds (tree : Tree) (first last : Token) : Prop :=
  ∃ binding arguments, Item.ofTree? tree = some (.binding binding) ∧
    binding.arguments? = some arguments ∧ arguments.node.span = ⟨first.start, last.stop⟩

theorem Arguments.Encloses.withoutTrivia_leaves {a : Arguments} (h : a.Encloses opening between closing) :
    Token.withoutTrivia a.node.leaves = opening :: Token.withoutTrivia between ++ [closing] := by
  have hopening : opening.isTrivia = false := by
    simp [Token.isTrivia, TokenKind.isTrivia, h.opening_kind]
  have hclosing : closing.isTrivia = false := by
    simp [Token.isTrivia, TokenKind.isTrivia, h.closing_kind]
  rw [h.leaves, Token.withoutTrivia_append, Token.withoutTrivia_cons, hopening, Token.withoutTrivia_cons,
    hclosing]
  rfl

namespace BalancedHeader

theorem not_startsHeader (h : BalancedHeader stream keyword opening inner closing) :
    ¬ StartsHeader all stream := by
  rintro ⟨modifiers, key, colon, rest, hstream, hm, _, hcolon⟩
  obtain ⟨_, _, hsplit, _⟩ := h.split
  rw [hsplit] at hstream
  cases modifiers with
  | nil =>
    obtain ⟨rfl, hrest⟩ := List.cons.inj hstream
    obtain ⟨rfl, _⟩ := List.cons.inj hrest
    simp [h.opening_kind] at hcolon
  | cons first modifiers =>
    obtain ⟨rfl, _⟩ := List.cons.inj hstream
    have hkind := KindSet.mem_of_bindingKeywords h.keyword_kind
    rcases hm keyword (by simp) with hk | hk <;> simp [hk] at hkind

theorem startsBinding (h : BalancedHeader stream keyword opening inner closing)
    (hinner : ∀ t ∈ inner, t.kind ≠ .parenClose) : StartsBinding stream := by
  obtain ⟨colon, rest, hsplit, hcolon⟩ := h.split
  exact ⟨keyword, _, hsplit, h.keyword_kind, .inr ⟨opening, inner, closing, colon, rest, rfl,
    h.opening_kind, hinner, h.closing_kind, hcolon⟩⟩

/-- Only behind the outer opening parenthesis can one be closed. -/
theorem find?_of_split {rest : List Token} (h : BalancedHeader stream keyword opening inner closing)
    (hrest : stream = keyword :: opening :: rest) :
    stream.find? (fun t => t.kind == .parenClose) = rest.find? fun t => t.kind == .parenClose := by
  have hkeyword : keyword.kind ≠ .parenClose := by
    intro hk
    simpa [hk] using KindSet.mem_of_bindingKeywords h.keyword_kind
  rw [hrest, List.find?_cons_of_neg (by simpa using hkeyword),
    List.find?_cons_of_neg (by simp [h.opening_kind])]

theorem find?_parenClose (h : BalancedHeader stream keyword opening inner closing) :
    stream.find? (fun t => t.kind == .parenClose) =
      (inner.find? fun t => t.kind == .parenClose).or (some closing) := by
  obtain ⟨_, _, hsplit, _⟩ := h.split
  rw [h.find?_of_split hsplit, List.find?_append, List.find?_cons_of_pos (by simp [h.closing_kind])]

/-- The arguments of a binding end at the first closing parenthesis. -/
theorem binds_first {b : Binding} {more : List Token}
    (h : BalancedHeader stream keyword opening inner closing)
    (hshape : Shape.Child ended (.node .binding (withoutTrivia b.children)))
    (htrimmed : AllTrimmed b.children) (hstream : stream = Token.withoutTrivia b.node.leaves ++ more) :
    ∃ first, stream.find? (fun t => t.kind == .parenClose) = some first ∧
      Binds b.node opening first := by
  obtain ⟨_, colon, body, parts⟩ := b.exists_parts hshape
  have hcolon : colon.kind = .colon := by simpa using List.find?_some parts.colon_eq
  have hopening := h.opening_kind
  obtain ⟨_, _, hsplit, _⟩ := h.split
  rw [parts.tokens] at hstream
  cases ha : b.arguments? with
  | none =>
    rw [ha] at hstream
    obtain ⟨_, hrest⟩ := List.cons.inj (hsplit.symm.trans hstream)
    obtain ⟨rfl, _⟩ := List.cons.inj hrest
    simp [hcolon] at hopening
  | some arguments =>
    obtain ⟨_, between, first, hencloses, _⟩ := Binding.exists_encloses hshape htrimmed ha
    rw [ha, Option.elim_some, hencloses.withoutTrivia_leaves] at hstream
    obtain ⟨rfl, hrest⟩ := List.cons.inj (hsplit.symm.trans hstream)
    obtain ⟨rfl, _⟩ := List.cons.inj hrest
    have hbehind : stream =
        keyword :: opening :: (Token.withoutTrivia between ++ first :: colon :: (body ++ more)) := by
      simpa using hstream
    have hbetween : ∀ t ∈ Token.withoutTrivia between, (t.kind == .parenClose) = false :=
      fun t ht => beq_false_of_ne (hencloses.between_kind t (List.mem_filter.mp ht).1)
    refine ⟨first, ?_, b, arguments, rfl, ha, hencloses.span⟩
    rw [h.find?_of_split hbehind, find?_append_of_forall hbetween,
      List.find?_cons_of_pos (by simp [hencloses.closing_kind])]

/-- A header with balanced parentheses binds as they say just where there are no others inside of them. -/
theorem binds_iff (h : BalancedHeader stream keyword opening inner closing)
    (hordered : Token.Ordered stream) (hdispatched : Dispatched all stream child)
    (hfirst : child.kind = .node .binding →
      ∃ first, stream.find? (fun t => t.kind == .parenClose) = some first ∧ Binds child opening first) :
    Binds child opening closing ↔ ∀ t ∈ inner, t.kind ≠ .parenOpen ∧ t.kind ≠ .parenClose := by
  rw [h.find?_parenClose] at hfirst
  constructor
  · rintro ⟨binding, arguments, hview, harguments, hspan⟩
    obtain ⟨first, hfind, _, _, hview', harguments', hspan'⟩ := hfirst (by rw [Item.eq_node hview]; rfl)
    cases hview.symm.trans hview'
    cases harguments.symm.trans harguments'
    have hstop : closing.stop = first.stop := (Span.mk.inj (hspan.symm.trans hspan')).2
    cases hinner : inner.find? (fun t => t.kind == .parenClose) with
    | none =>
      have hclose : ∀ t ∈ inner, t.kind ≠ .parenClose := by simpa using hinner
      exact fun t ht => ⟨h.balanced.kind_ne_parenOpen hclose t ht, hclose t ht⟩
    | some t =>
      rw [hinner] at hfind
      obtain rfl : t = first := by simpa using hfind
      obtain ⟨_, _, hsplit, _⟩ := h.split
      rw [hsplit] at hordered
      have hbehind := hordered.sublist (List.sublist_append_right [keyword, opening] _)
      have hle := hbehind.stop_le_start_of_append (List.mem_of_find?_eq_some hinner) List.mem_cons_self
      have hfilled := hordered.filled closing (by simp)
      omega
  · intro hinner
    have hclose : ∀ t ∈ inner, t.kind ≠ .parenClose := fun t ht => (hinner t ht).2
    obtain ⟨first, hfind, hbinds⟩ :=
      hfirst (hdispatched.binding.mpr ⟨h.not_startsHeader, h.startsBinding hclose⟩)
    have hnone : inner.find? (fun t => t.kind == .parenClose) = none := by simpa using hclose
    rw [hnone] at hfind
    obtain rfl : closing = first := by simpa using hfind
    exact hbinds

end BalancedHeader

namespace Parsed

variable {source : List Char} {children before after : List Tree}

theorem ordered (parsed : Parsed source children) (h : children = before ++ child :: after) :
    Token.Ordered (Token.withoutTrivia (leavesAll (child :: after))) := by
  have hall := (tokenize_consecutive source).toOrdered
  rw [← parsed.leaves, h, leavesAll_append] at hall
  exact hall.sublist (List.filter_sublist.trans (List.sublist_append_right _ _))

/-- What a child of the file is, by the tokens from its first one on. -/
theorem dispatched (parsed : Parsed source children) (h : children = before ++ child :: after)
    (htrivia : child.kind.isTrivia = false) :
    Dispatched (tokenize source) (Token.withoutTrivia (leavesAll (child :: after))) child := by
  rcases parsed.settled before child after h with
    ⟨t, rfl, ht⟩ | ⟨t, rest, ht, _, _, hleaves, hdispatched, _⟩
  · cases ht.symm.trans htrivia
  · rw [hleaves, Token.withoutTrivia_cons, ht]
    exact hdispatched

theorem binds_first (parsed : Parsed source children) (hmem : child ∈ children)
    (h : BalancedHeader (Token.withoutTrivia (leavesAll (child :: after))) keyword opening inner closing)
    (hkind : child.kind = .node .binding) :
    ∃ first, (Token.withoutTrivia (leavesAll (child :: after))).find? (fun t => t.kind == .parenClose) =
      some first ∧ Binds child opening first := by
  cases child with
  | leaf token => cases hkind
  | node kind grandchildren =>
    cases hkind
    obtain ⟨ended, hshape⟩ := parsed.shape.exists_child_of_node hmem
    apply h.binds_first (b := ⟨grandchildren⟩) hshape (AllTrimmed.of_mem parsed.trimmed hmem).2
    exact Token.withoutTrivia_append _ _

end Parsed

/-- At a binding keyword with balanced parentheses and a colon behind it there is a binding with just these
parentheses if and only if there are no others inside of them. If there are, and it is a binding all the same,
its arguments end at the first closing one. -/
theorem balanced_header_binds (source : List Char) :
    ∃ children diagnostics, parse source = .ok ⟨.node .file children, diagnostics⟩ ∧
      ∀ before child after, children = before ++ child :: after → child.kind.isTrivia = false →
        ∀ keyword opening inner closing,
          BalancedHeader (Token.withoutTrivia (leavesAll (child :: after))) keyword opening inner closing →
          (Binds child opening closing ↔ ∀ t ∈ inner, t.kind ≠ .parenOpen ∧ t.kind ≠ .parenClose) ∧
            (child.kind = .node .binding →
              ∃ first, (Token.withoutTrivia (leavesAll (child :: after))).find?
                (fun t => t.kind == .parenClose) = some first ∧ Binds child opening first) := by
  obtain ⟨children, diagnostics, hparse, parsed⟩ := exists_parsed source
  refine ⟨children, diagnostics, hparse, ?_⟩
  intro before child after hchildren htrivia keyword opening inner closing h
  have hmem : child ∈ children := by simp [hchildren]
  have hfirst := parsed.binds_first hmem h
  exact ⟨h.binds_iff (parsed.ordered hchildren) (parsed.dispatched hchildren htrivia) hfirst, hfirst⟩

/-- The arguments end inside of the outer parentheses, and what is left of the header is a statement. -/
example : (parse "key((a): b): c".toList).map (fun result =>
    (File.ofTree result.tree).bindings.map fun binding =>
      (binding.arguments?.map fun arguments => arguments.node.span, binding.statements.map (·.node.span))) =
    .ok [(some ⟨3, 7⟩, [⟨9, 14⟩])] := by
  decide +kernel

/-- With a call among the arguments a header is not read as one of a binding. -/
theorem nested_parentheses_not_bound :
    ∃ child diagnostics, parse "key(a(b)): c".toList = .ok ⟨.node .file [child], diagnostics⟩ ∧
      BalancedHeader (Token.withoutTrivia (leavesAll [child]))
        ⟨.keyword .key, 0, ['k', 'e', 'y']⟩ ⟨.parenOpen, 3, ['(']⟩
        [⟨.functionName, 4, ['a']⟩, ⟨.parenOpen, 5, ['(']⟩, ⟨.word, 6, ['b']⟩, ⟨.parenClose, 7, [')']⟩]
        ⟨.parenClose, 8, [')']⟩ ∧
      child.kind = .node .command := by
  have hkinds : (parse "key(a(b)): c".toList).map (fun result => result.tree.children.map Tree.kind) =
      .ok [.node .command] := by
    decide +kernel
  obtain ⟨children, diagnostics, hparse, hleaves⟩ := exists_parse "key(a(b)): c".toList
  rw [hparse] at hkinds
  have hkinds : children.map Tree.kind = [.node .command] := Except.ok.inj hkinds
  obtain ⟨child, rfl, hkind⟩ := List.map_eq_singleton_iff.mp hkinds
  refine ⟨child, diagnostics, hparse, ?_, hkind⟩
  rw [hleaves]
  refine ⟨by decide, rfl, ?_, rfl, ⟨.colon, 9, [':']⟩, [⟨.identifier, 11, ['c']⟩], by decide +kernel, rfl⟩
  have hinner : Token.Balanced [⟨.word, 6, ['b']⟩] := .token (by decide) (by decide) .nil
  exact .token (by decide) (by decide) (.parens rfl rfl hinner .nil)

end VoiceScript
