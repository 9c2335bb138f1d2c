import VoiceScript.Fold
import VoiceScript.Proofs.Lossless
import VoiceScript.Proofs.Placed

namespace VoiceScript

open Token

namespace Tree

variable {kind : NodeKind} {tree : Tree} {trees : List Tree}

/-- The tokens of one tree of a row stand together. -/
theorem leaves_isInfix (h : tree ∈ trees) : tree.leaves <:+: leavesAll trees := by
  obtain ⟨before, after, rfl⟩ := List.append_of_mem h
  rw [leavesAll_append, leavesAll_cons, ← List.append_assoc]
  exact List.infix_append _ _ _

/-- The tokens of two trees of a row stand one after the other. -/
theorem pairwise_leaves (trees : List Tree) :
    trees.Pairwise fun a b => (a.leaves ++ b.leaves).Sublist (leavesAll trees) := by
  induction trees with
  | nil => exact .nil
  | cons tree trees ih =>
    rw [leavesAll_cons]
    refine .cons ?_ (ih.imp fun h => h.trans (List.sublist_append_right _ _))
    intro b hb
    exact (leaves_isInfix hb).sublist.append_left tree.leaves

theorem leavesAll_children_sublist (tree : Tree) : (leavesAll tree.children).Sublist tree.leaves := by
  cases tree with
  | leaf token => exact List.nil_sublist _
  | node kind children => exact List.Sublist.refl _

end Tree

namespace Fold

variable {lines : List Line} {node a b inner outer : Tree} {tokens : List Token}
  {first last t : Token} {n d e offset : Nat} {fold f g : Fold} {p q : Placeholder}

theorem pastToken_cases (tokens : List Token) (offset : Nat) :
    (pastToken tokens offset = offset ∧ ∀ t ∈ tokens, t.start < offset → t.stop ≤ offset) ∨
      ∃ t ∈ tokens, t.start < offset ∧ offset < t.stop ∧ pastToken tokens offset = t.stop := by
  unfold pastToken
  split
  · rename_i hnone
    refine .inl ⟨rfl, ?_⟩
    intro t ht hstart
    simpa [hstart] using List.find?_eq_none.mp hnone t ht
  · rename_i token hfind
    have hinside := List.find?_some hfind
    rw [Bool.and_eq_true, decide_eq_true_eq, decide_eq_true_eq] at hinside
    exact .inr ⟨token, List.mem_of_find?_eq_some hfind, hinside.1, hinside.2, rfl⟩

theorem le_pastToken (tokens : List Token) (offset : Nat) : offset ≤ pastToken tokens offset := by
  rcases pastToken_cases tokens offset with ⟨heq, _⟩ | ⟨t, _, _, hlt, heq⟩ <;> omega

/-- An offset is inside of no two tokens of a row in order. -/
theorem pastToken_of_mem (h : Ordered tokens) (ht : t ∈ tokens) (hstart : t.start < offset)
    (hstop : offset < t.stop) : pastToken tokens offset = t.stop := by
  rcases pastToken_cases tokens offset with ⟨_, houtside⟩ | ⟨u, hu, hustart, hustop, heq⟩
  · exact absurd (houtside t ht hstart) (Nat.not_le_of_lt hstop)
  · rcases h.eq_or_apart ht hu with rfl | hle | hle
    · exact heq
    · omega
    · omega

/-- The first and the last solid token of a node, and where the contents of their lines end. -/
structure Frame (lines : List Line) (node : Tree) (first last : Token) (d e : Nat) : Prop where
  head : (solid node).head? = some first
  foot : (solid node).getLast? = some last
  firstEnd : Line.contentEnd? lines (Line.ofOffset lines first.start) = some d
  lastEnd : Line.contentEnd? lines (Line.ofOffset lines (last.stop - 1)) = some e

theorem between?_eq_some_iff {start stop : Nat} :
    between? start stop p = some fold ↔ start < stop ∧ fold = ⟨⟨start, stop⟩, p⟩ := by
  unfold between?
  split
  · rename_i hlt
    simp [hlt, eq_comm]
  · rename_i hlt
    simp [hlt]

theorem ofNode?_eq_some_iff :
    ofNode? lines p node = some fold ↔
      ∃ first last d e, Frame lines node first last d e ∧
        Line.ofOffset lines first.start ≠ Line.ofOffset lines (last.stop - 1) ∧
        pastToken node.leaves d < max e last.stop ∧
        fold = ⟨⟨pastToken node.leaves d, max e last.stop⟩, p⟩ := by
  constructor
  · intro h
    obtain ⟨extent, hextent, h⟩ := Option.bind_eq_some_iff.mp h
    obtain ⟨first, last, hhead, hlast, rfl⟩ := Tree.extent_eq_some_iff.mp hextent
    simp only at h
    split at h
    · cases h
    · rename_i hne
      obtain ⟨d, hd, h⟩ := Option.bind_eq_some_iff.mp h
      obtain ⟨e, he, h⟩ := Option.bind_eq_some_iff.mp h
      obtain ⟨hlt, rfl⟩ := between?_eq_some_iff.mp h
      exact ⟨first, last, d, e, ⟨hhead, hlast, hd, he⟩, hne, hlt, rfl⟩
  · rintro ⟨first, last, d, e, frame, hne, hlt, rfl⟩
    have hextent := Tree.extent_eq_some_iff.mpr ⟨first, last, frame.head, frame.foot, rfl⟩
    refine Option.bind_eq_some_iff.mpr ⟨_, hextent, ?_⟩
    simp only
    rw [if_neg hne, frame.firstEnd, frame.lastEnd]
    exact between?_eq_some_iff.mpr ⟨hlt, rfl⟩

namespace Frame

variable {first' last' : Token} {d' e' : Nat}

theorem first_solid (frame : Frame lines node first last d e) :
    first ∈ node.leaves ∧ first.isSolid = true :=
  List.mem_filter.mp (List.mem_of_head? frame.head)

theorem last_solid (frame : Frame lines node first last d e) :
    last ∈ node.leaves ∧ last.isSolid = true :=
  List.mem_filter.mp (List.mem_of_getLast? frame.foot)

/-- The first line shows where the construct starts. -/
theorem start_lt (h : Placed lines node.leaves) (frame : Frame lines node first last d e) :
    first.start < d := by
  obtain ⟨e, he, hlt⟩ := h.visible first frame.first_solid.1 frame.first_solid.2
  rw [frame.firstEnd] at he
  cases he
  exact hlt

theorem bounds (h : Ordered node.leaves) (frame : Frame lines node first last d e)
    (ht : t ∈ node.leaves) (hs : t.isSolid = true) :
    first.start ≤ t.start ∧ t.stop ≤ last.stop := by
  have hsolid : Ordered (solid node) := h.sublist List.filter_sublist
  have hmem : t ∈ solid node := List.mem_filter.mpr ⟨ht, hs⟩
  exact ⟨hsolid.start_le_of_head? frame.head hmem, hsolid.stop_le_of_getLast? frame.foot hmem⟩

theorem first_lt_stop (h : Ordered node.leaves) (frame : Frame lines node first last d e) :
    first.start < last.stop :=
  Nat.lt_of_lt_of_le (h.filled first frame.first_solid.1)
    (frame.bounds h frame.first_solid.1 frame.first_solid.2).2

/-- A construct that takes several lines goes down. -/
theorem line_lt (h : Ordered node.leaves) (frame : Frame lines node first last d e)
    (hne : Line.ofOffset lines first.start ≠ Line.ofOffset lines (last.stop - 1)) :
    Line.ofOffset lines first.start < Line.ofOffset lines (last.stop - 1) := by
  have hlt := frame.first_lt_stop h
  exact Nat.lt_of_le_of_ne (Line.ofOffset_mono (by omega)) hne

theorem exists_of_mem (h : Placed lines node.leaves) (ht : t ∈ node.leaves)
    (hs : t.isSolid = true) : ∃ first last d e, Frame lines node first last d e := by
  have hmem : t ∈ solid node := List.mem_filter.mpr ⟨ht, hs⟩
  have hne : solid node ≠ [] := List.ne_nil_of_mem hmem
  have hhead := List.head?_eq_some_head hne
  have hlast := List.getLast?_eq_some_getLast hne
  have hfirst := List.mem_filter.mp (List.head_mem hne)
  obtain ⟨d, hd, _⟩ := h.visible _ hfirst.1 hfirst.2
  obtain ⟨e, he⟩ := Line.exists_contentEnd?_ofOffset hd (((solid node).getLast hne).stop - 1)
  exact ⟨_, _, d, e, hhead, hlast, hd, he⟩

/-- The end of the first line of a node is no further on than that of a node inside of it, nor is the end
of the token across it. -/
theorem pastToken_le (h : Placed lines outer.leaves) (hin : inner.leaves <:+: outer.leaves)
    (frame : Frame lines inner first last d e) (frame' : Frame lines outer first' last' d' e')
    (hne : Line.ofOffset lines first.start ≠ Line.ofOffset lines (last.stop - 1)) :
    pastToken outer.leaves d' ≤ pastToken inner.leaves d := by
  have hinner := h.sublist hin.sublist
  have hmem := hin.subset frame.first_solid.1
  have hline : Line.ofOffset lines first'.start ≤ Line.ofOffset lines first.start :=
    Line.ofOffset_mono (frame'.bounds h.toOrdered hmem frame.first_solid.2).1
  have hd : d' ≤ d := Line.contentEnd_mono frame'.firstEnd frame.firstEnd hline
  have hpast := le_pastToken inner.leaves d
  rcases pastToken_cases outer.leaves d' with ⟨heq, _⟩ | ⟨t, ht, hstart, hstop, heq⟩
  · omega
  · rw [heq]
    rcases Nat.lt_or_ge t.start first.start with hlt | hge
    · -- a token before the inner node ends before that node starts
      have hvisible := frame.start_lt hinner
      rcases h.toOrdered.eq_or_apart ht hmem with rfl | hle | hle
      · omega
      · omega
      · have := h.filled t ht
        have := h.filled first hmem
        omega
    · -- otherwise both nodes start on one line and the token is part of the inner one
      have hsame : Line.ofOffset lines first'.start = Line.ofOffset lines first.start := by
        apply Nat.le_antisymm hline
        exact Line.ofOffset_le_of_lt_contentEnd frame'.firstEnd (by omega)
      have hends := frame.firstEnd
      rw [← hsame, frame'.firstEnd] at hends
      cases hends
      have hlast := Line.contentEnd_le_of_lt_ofOffset frame.firstEnd
        (frame.line_lt hinner.toOrdered hne)
      have hpart : t ∈ inner.leaves := h.toOrdered.mem_of_isInfix hin frame.first_solid.1
        frame.last_solid.1 ht hge (by omega)
      exact Nat.le_of_eq (pastToken_of_mem hinner.toOrdered hpart hstart hstop).symm

end Frame

/-- Of two nodes, one after the other, the first fold ends before the second one starts. -/
theorem stop_le_start (h : Placed lines (a.leaves ++ b.leaves)) (hf : ofNode? lines p a = some f)
    (hg : ofNode? lines q b = some g) : f.span.stop ≤ g.span.start := by
  obtain ⟨_, last, _, e, above, _, _, rfl⟩ := ofNode?_eq_some_iff.mp hf
  obtain ⟨first, _, d, _, below, _, _, rfl⟩ := ofNode?_eq_some_iff.mp hg
  have hapart : last.stop ≤ first.start :=
    h.toOrdered.stop_le_start_of_append above.last_solid.1 below.first_solid.1
  have hvisible : first.start < d := below.start_lt (h.sublist (List.sublist_append_right _ _))
  have hends : e ≤ d := Line.contentEnd_mono above.lastEnd below.firstEnd
    (Line.ofOffset_mono (by omega))
  have hpast := le_pastToken b.leaves d
  simp only
  omega

/-- A node around a node that has a fold has one too, and that one goes around the other. -/
theorem exists_outer (h : Placed lines outer.leaves) (hin : inner.leaves <:+: outer.leaves)
    (hf : ofNode? lines p inner = some f) (q : Placeholder) :
    ∃ g, ofNode? lines q outer = some g ∧
      g.span.start ≤ f.span.start ∧ f.span.stop ≤ g.span.stop := by
  obtain ⟨first, last, d, e, frame, hne, hlt, rfl⟩ := ofNode?_eq_some_iff.mp hf
  have hinner := h.sublist hin.sublist
  have hfirst := hin.subset frame.first_solid.1
  obtain ⟨first', last', d', e', frame'⟩ := Frame.exists_of_mem h hfirst frame.first_solid.2
  have hstart := (frame'.bounds h.toOrdered hfirst frame.first_solid.2).1
  have hstop := (frame'.bounds h.toOrdered (hin.subset frame.last_solid.1) frame.last_solid.2).2
  have habove : Line.ofOffset lines first'.start ≤ Line.ofOffset lines first.start :=
    Line.ofOffset_mono hstart
  have hbelow : Line.ofOffset lines (last.stop - 1) ≤ Line.ofOffset lines (last'.stop - 1) :=
    Line.ofOffset_mono (by omega)
  have hdown := frame.line_lt hinner.toOrdered hne
  have hpast := Frame.pastToken_le h hin frame frame' hne
  have hend := Line.contentEnd_mono frame.lastEnd frame'.lastEnd hbelow
  have hmax : max e last.stop ≤ max e' last'.stop := by omega
  refine ⟨_, ofNode?_eq_some_iff.mpr ⟨first', last', d', e', frame', by omega, ?_, rfl⟩, hpast, hmax⟩
  exact Nat.lt_of_le_of_lt hpast (Nat.lt_of_lt_of_le hlt hmax)

/-- A fold hides something, and nothing past the end of the text. -/
theorem span_of_ofNode? (h : Placed lines node.leaves) (hf : ofNode? lines p node = some f) :
    f.span.start < f.span.stop ∧ f.span.stop ≤ Text.byteLength (Line.join lines) := by
  obtain ⟨first, last, d, e, frame, _, hlt, rfl⟩ := ofNode?_eq_some_iff.mp hf
  exact ⟨hlt, Nat.max_le.mpr
    ⟨Line.contentEnd_le_byteLength frame.lastEnd, h.inside last frame.last_solid.1⟩⟩

end Fold

/-- What stands for the hidden part of a construct. -/
def Item.placeholder : Item → Placeholder
  | .binding _ => .binding
  | _ => .body

theorem Item.eq_node {tree : Tree} {item : Item} (h : Item.ofTree? tree = some item) :
    tree = item.node := by
  unfold Item.ofTree? at h
  split at h <;> cases h <;> rfl

theorem Statement.eq_node {tree : Tree} {statement : Statement}
    (h : Statement.ofTree? tree = some statement) : tree = statement.node := by
  unfold Statement.ofTree? at h
  split at h <;> cases h
  rfl

/-- The statements of a construct are children of its node. A header has none. -/
theorem Item.statements_sublist (item : Item) :
    item.statements.Sublist (item.node.children.filterMap Statement.ofTree?) := by
  cases item with
  | header h => exact List.nil_sublist _
  | command c => exact List.Sublist.refl _
  | binding b => exact List.Sublist.refl _

namespace Fold

variable {lines : List Line} {tree : Tree} {items : List Item} {fold f g : Fold}

/-- The fold of a construct as a whole. -/
def ofWhole? (lines : List Line) (item : Item) : Option Fold :=
  ofNode? lines item.placeholder item.node

def ofStatement? (lines : List Line) (statement : Statement) : Option Fold :=
  ofNode? lines .body statement.node

theorem ofItem_eq (lines : List Line) (item : Item) :
    ofItem lines item =
      (ofWhole? lines item).toList ++ item.statements.filterMap (ofStatement? lines) := by
  cases item <;> rfl

/-- Folds of constructs and of their statements that are like brackets. -/
structure Nested (lines : List Line) (items : List Item) : Prop where
  itemsApart : items.Pairwise fun a b =>
    ∀ f ∈ ofWhole? lines a, ∀ g ∈ ofWhole? lines b, f.span.stop ≤ g.span.start
  statementsApart : ∀ item ∈ items, item.statements.Pairwise fun a b =>
    ∀ f ∈ ofStatement? lines a, ∀ g ∈ ofStatement? lines b, f.span.stop ≤ g.span.start
  enclosed : ∀ item ∈ items, ∀ statement ∈ item.statements,
    ∀ inner ∈ ofStatement? lines statement, ∃ outer ∈ ofWhole? lines item,
      outer.span.start ≤ inner.span.start ∧ inner.span.stop ≤ outer.span.stop

/-- Views of the trees of a row: their folds do not overlap. -/
theorem pairwise_stop_le_start {α : Type} {view? : Tree → Option α} {node : α → Tree}
    {trees : List Tree} (hview : ∀ tree a, view? tree = some a → tree = node a)
    (placeholder : α → Placeholder) (h : Placed lines (Tree.leavesAll trees)) :
    (trees.filterMap view?).Pairwise fun a b =>
      ∀ f ∈ ofNode? lines (placeholder a) (node a), ∀ g ∈ ofNode? lines (placeholder b) (node b),
        f.span.stop ≤ g.span.start := by
  apply List.pairwise_filterMap.mpr
  refine (Tree.pairwise_leaves trees).imp ?_
  intro left right hsub a ha b hb f hf g hg
  have hleft := hview left a ha
  have hright := hview right b hb
  subst hleft hright
  exact stop_le_start (h.sublist hsub) hf hg

theorem node_mem_of_mem_items {item : Item} (h : item ∈ (File.ofTree tree).items) :
    item.node ∈ tree.children := by
  obtain ⟨child, hmem, hview⟩ := List.mem_filterMap.mp h
  rw [← Item.eq_node hview]
  exact hmem

theorem node_mem_of_mem_statements {item : Item} {statement : Statement}
    (h : statement ∈ item.statements) : statement.node ∈ item.node.children := by
  obtain ⟨child, hmem, hview⟩ := List.mem_filterMap.mp (item.statements_sublist.subset h)
  rw [← Statement.eq_node hview]
  exact hmem

theorem placed_children (h : Placed lines tree.leaves) :
    Placed lines (Tree.leavesAll tree.children) :=
  h.sublist tree.leavesAll_children_sublist

theorem placed_item (h : Placed lines tree.leaves) {item : Item}
    (hitem : item ∈ (File.ofTree tree).items) : Placed lines item.node.leaves :=
  (placed_children h).sublist (Tree.leaves_isInfix (node_mem_of_mem_items hitem)).sublist

/-- The tokens of a statement stand together in those of its construct. -/
theorem leaves_statement_isInfix {item : Item} {statement : Statement}
    (h : statement ∈ item.statements) : statement.node.leaves <:+: item.node.leaves := by
  have hinfix := Tree.leaves_isInfix (node_mem_of_mem_statements h)
  cases item <;> exact hinfix

theorem nested_items (h : Placed lines tree.leaves) : Nested lines (File.ofTree tree).items where
  itemsApart := pairwise_stop_le_start (fun _ _ => Item.eq_node) Item.placeholder (placed_children h)
  statementsApart := by
    intro item hitem
    apply List.Pairwise.sublist item.statements_sublist
    exact pairwise_stop_le_start (fun _ _ => Statement.eq_node) (fun _ => .body)
      (placed_children (placed_item h hitem))
  enclosed := by
    intro item hitem statement hstatement inner hinner
    exact exists_outer (placed_item h hitem) (leaves_statement_isInfix hstatement) hinner _

theorem mem_ofItem_iff {item : Item} :
    fold ∈ ofItem lines item ↔
      fold ∈ ofWhole? lines item ∨
        ∃ statement ∈ item.statements, fold ∈ ofStatement? lines statement := by
  rw [ofItem_eq, List.mem_append, Option.mem_toList, List.mem_filterMap]
  exact Iff.rfl

theorem span_of_mem_ofItem (h : Placed lines tree.leaves) {item : Item}
    (hitem : item ∈ (File.ofTree tree).items) (hf : fold ∈ ofItem lines item) :
    fold.span.start < fold.span.stop ∧ fold.span.stop ≤ Text.byteLength (Line.join lines) := by
  have hplaced := placed_item h hitem
  rcases mem_ofItem_iff.mp hf with hwhole | ⟨statement, hstatement, hf⟩
  · exact span_of_ofNode? hplaced hwhole
  · exact span_of_ofNode? (hplaced.sublist (leaves_statement_isInfix hstatement).sublist) hf

/-- The fold of a construct goes around all its folds. -/
theorem Nested.exists_whole (h : Nested lines items) {item : Item} (hitem : item ∈ items)
    (hf : f ∈ ofItem lines item) : ∃ outer ∈ ofWhole? lines item,
      outer.span.start ≤ f.span.start ∧ f.span.stop ≤ outer.span.stop := by
  rcases mem_ofItem_iff.mp hf with hwhole | ⟨statement, hstatement, hf⟩
  · exact ⟨f, hwhole, Nat.le_refl _, Nat.le_refl _⟩
  · exact h.enclosed item hitem statement hstatement f hf

/-- Folds like brackets start one after the other. -/
theorem Nested.pairwise_start_le (h : Nested lines items)
    (hfilled : ∀ item ∈ items, ∀ f ∈ ofItem lines item, f.span.start < f.span.stop) :
    (items.flatMap (ofItem lines)).Pairwise fun f g => f.span.start ≤ g.span.start := by
  apply List.pairwise_flatMap.mpr
  constructor
  · intro item hitem
    have hfilled := hfilled item hitem
    rw [ofItem_eq]
    apply List.pairwise_append.mpr
    refine ⟨?_, ?_, ?_⟩
    · cases ofWhole? lines item <;> simp
    · apply List.pairwise_filterMap.mpr
      refine (h.statementsApart item hitem).imp_of_mem ?_
      intro a b ha _ hapart f hf g hg
      have := hfilled f (mem_ofItem_iff.mpr (.inr ⟨a, ha, hf⟩))
      have := hapart f hf g hg
      omega
    · intro outer houter f hf
      obtain ⟨statement, hstatement, hf⟩ := List.mem_filterMap.mp hf
      obtain ⟨whole, hwhole, hle, _⟩ := h.enclosed item hitem statement hstatement f hf
      cases Option.mem_unique (Option.mem_toList.mp houter) hwhole
      exact hle
  · refine h.itemsApart.imp_of_mem ?_
    intro a b ha hb hapart f hf g hg
    obtain ⟨outer, houter, _, hstop⟩ := h.exists_whole ha hf
    obtain ⟨outer', houter', hstart, _⟩ := h.exists_whole hb hg
    have := hfilled a ha f hf
    have := hapart outer houter outer' houter'
    omega

end Fold

/-- Whatever the source, its folds come construct by construct: at most one of the construct as a whole and
then at most one of each of its statements. Each hides a part of the source, none starts before the one before
it, and they are like brackets. -/
theorem folds_nested (source : List Char) :
    ∃ result, parse source = .ok result ∧
      Fold.ofTree result.tree = (File.ofTree result.tree).items.flatMap (fun item =>
        (Fold.ofWhole? (Line.ofText source) item).toList ++
          item.statements.filterMap (Fold.ofStatement? (Line.ofText source))) ∧
      (∀ fold ∈ Fold.ofTree result.tree,
        fold.span.start < fold.span.stop ∧ fold.span.stop ≤ Text.byteLength source) ∧
      (Fold.ofTree result.tree).Pairwise (fun f g => f.span.start ≤ g.span.start) ∧
      Fold.Nested (Line.ofText source) (File.ofTree result.tree).items := by
  obtain ⟨children, diagnostics, hparse, hleaves⟩ := exists_parse source
  have hplaced : Token.Placed (Line.ofText source) (Tree.node .file children).leaves := by
    rw [Tree.leaves_node, hleaves]
    exact placed_tokenize source
  have htext : (Tree.node .file children).text = source := by
    rw [Tree.text, Tree.leaves_node, hleaves]
    exact spelling_tokenize source
  have hfolds : Fold.ofTree (.node .file children) =
      (File.ofTree (.node .file children)).items.flatMap (Fold.ofItem (Line.ofText source)) := by
    rw [Fold.ofTree, htext]
  have hspans : ∀ item ∈ (File.ofTree (.node .file children)).items,
      ∀ fold ∈ Fold.ofItem (Line.ofText source) item,
        fold.span.start < fold.span.stop ∧ fold.span.stop ≤ Text.byteLength source := by
    intro item hitem fold hfold
    have hspan := Fold.span_of_mem_ofItem hplaced hitem hfold
    rw [Line.join_ofText] at hspan
    exact hspan
  have hnested := Fold.nested_items hplaced
  refine ⟨_, hparse, ?_, ?_, ?_, hnested⟩
  · rw [hfolds, funext (Fold.ofItem_eq (Line.ofText source))]
  · intro fold hfold
    rw [hfolds] at hfold
    obtain ⟨item, hitem, hfold⟩ := List.mem_flatMap.mp hfold
    exact hspans item hitem fold hfold
  · rw [hfolds]
    exact hnested.pairwise_start_le fun item hitem fold hfold => (hspans item hitem fold hfold).1

end VoiceScript
