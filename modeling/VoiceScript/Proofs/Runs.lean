import Mathlib.Data.List.Flatten
import Mathlib.Data.List.Forall2
import VoiceScript.Item
import VoiceScript.Proofs.Flaws
import VoiceScript.Proofs.Lossless
import VoiceScript.Proofs.Recast

namespace VoiceScript

def endsRun : Tree → Bool
  | .leaf t => t.kind == .newline || t.kind == .separator
  | .node _ _ => true

/-- The pieces of a row of trees between those that end a run. -/
def runs (trees : List Tree) : List (List Tree) :=
  (trees.splitOnP endsRun).filter fun run => !run.isEmpty

/-- Tokens dropped one after the other, trivia aside. -/
def droppedRuns (children : List Tree) : List (List Token) :=
  (runs (Tree.withoutTrivia children)).map Tree.leavesAll

/-- Where the runs lie. -/
def runSpans (trees : List Tree) : List Span :=
  (runs trees).filterMap fun run => Tree.extent (Tree.leavesAll run)

/-- A diagnostic of a run of dropped tokens. -/
structure ReportsRun (source : List Char) (run : List Token) (d : Diagnostic) : Prop where
  problem : d.problem = .unrecognizedInput
  span : Tree.extent run = some d.span
  message : ∃ before after, d.problem.template = before ++ "\x7b\x7d" ++ after ∧
    d.message = before ++ String.ofList (Text.slice d.span.start d.span.stop source) ++ after

variable {trees us : List Tree} {tree : Tree} {t : Token} {run pending tokens : List Token}
  {p : Parser} {source : List Char}

theorem Tree.extent_cons (first : Token) (rest : List Token) :
    ∃ last ∈ first :: rest, extent (first :: rest) = some ⟨first.start, last.stop⟩ := by
  have hl : (first :: rest).getLast? = some ((first :: rest).getLast (by simp)) :=
    List.getLast?_eq_some_getLast (by simp)
  refine ⟨_, List.mem_of_getLast? hl, ?_⟩
  rw [extent, hl]
  rfl

theorem Tree.extent_ne_none (h : tokens ≠ []) : ∃ span, extent tokens = some span := by
  obtain ⟨first, rest, rfl⟩ := List.exists_cons_of_ne_nil h
  obtain ⟨last, _, he⟩ := extent_cons first rest
  exact ⟨_, he⟩

theorem Tree.extent_concat (pending : List Token) (t : Token) :
    ∀ first ∈ (pending ++ [t]).head?, extent (pending ++ [t]) = some ⟨first.start, t.stop⟩ := by
  intro first hf
  rw [extent, hf, List.getLast?_concat]

theorem runs_append (h : endsRun tree = true) (as bs : List Tree) :
    runs (as ++ tree :: bs) = runs as ++ runs bs := by
  rw [runs, List.splitOnP_append_cons as bs h, List.filter_append]
  rfl

theorem runs_of_forall (h : ∀ tree ∈ trees, endsRun tree = false) (hne : trees ≠ []) :
    runs trees = [trees] := by
  rw [runs, List.splitOnP_eq_singleton h]
  simp [hne]

theorem flatten_runs (trees : List Tree) :
    (runs trees).flatten = trees.filter fun tree => !endsRun tree := by
  rw [runs, List.flatten_filter_not_isEmpty]
  induction trees with
  | nil => rfl
  | cons tree trees ih =>
    rw [List.splitOnP_cons_eq_if_modifyHead, List.filter_cons]
    obtain ⟨piece, pieces, hp⟩ := List.exists_cons_of_ne_nil (List.splitOnP_ne_nil endsRun trees)
    rw [hp] at ih ⊢
    cases endsRun tree with
    | true => exact ih
    | false => exact congrArg (List.cons tree) ih

theorem ne_nil_of_mem_runs {run : List Tree} (h : run ∈ runs trees) : run ≠ [] := by
  have he := (List.mem_filter.mp h).2
  simpa using he

theorem runs_eq_nil_iff : runs trees = [] ↔ ∀ tree ∈ trees, endsRun tree = true := by
  have hfilter : runs trees = [] ↔ (runs trees).flatten = [] := by
    constructor
    · intro h
      rw [h]
      rfl
    · intro h
      apply List.eq_nil_iff_forall_not_mem.mpr
      intro run hm
      exact ne_nil_of_mem_runs hm (List.flatten_eq_nil_iff.mp h run hm)
  rw [hfilter, flatten_runs, List.filter_eq_nil_iff]
  simp

/-- A run is a row of leaves. -/
theorem eq_map_leaf_of_mem_runs {run : List Tree} (h : run ∈ runs trees) :
    run = (Tree.leavesAll run).map .leaf := by
  have hends : ∀ tree ∈ run, endsRun tree = false := by
    intro tree hm
    have hf : tree ∈ (runs trees).flatten := List.mem_flatten.mpr ⟨run, h, hm⟩
    rw [flatten_runs] at hf
    simpa using (List.mem_filter.mp hf).2
  clear h
  induction run with
  | nil => rfl
  | cons tree run ih =>
    have hrun := ih fun tree hm => hends tree (by simp [hm])
    cases tree with
    | node kind children => cases hends (.node kind children) (by simp)
    | leaf t =>
      rw [Tree.leavesAll_cons, Tree.leaves_leaf, List.singleton_append, List.map_cons, ← hrun]

theorem endsRun_recast (r : Recast) (tree : Tree) : endsRun (tree.recast r) = endsRun tree := by
  cases tree with
  | leaf t => rw [Tree.recast_leaf, endsRun, endsRun, r.kind_token]
  | node kind children => rw [Tree.recast_node]; rfl

theorem runs_map {f : Tree → Tree} (h : ∀ tree, endsRun (f tree) = endsRun tree)
    (trees : List Tree) : runs (trees.map f) = (runs trees).map (List.map f) := by
  have hsplit : (trees.map f).splitOnP endsRun = (trees.splitOnP endsRun).map (List.map f) := by
    induction trees with
    | nil => rfl
    | cons tree trees ih =>
      obtain ⟨piece, pieces, hp⟩ := List.exists_cons_of_ne_nil (List.splitOnP_ne_nil endsRun trees)
      rw [List.map_cons, List.splitOnP_cons_eq_if_modifyHead, List.splitOnP_cons_eq_if_modifyHead,
        ih, h, hp]
      cases endsRun tree <;> rfl
  have hempty : (fun run : List Tree => !run.isEmpty) ∘ List.map f = fun run => !run.isEmpty := by
    funext run
    cases run <;> rfl
  rw [runs, hsplit, List.filter_map, hempty, runs]

/-- Changing tokens changes no run but its tokens. -/
theorem runs_recast (r : Recast) (children : List Tree) :
    runs (Tree.withoutTrivia (Tree.recastAll r children)) =
      (runs (Tree.withoutTrivia children)).map (List.map (Tree.recast r)) := by
  rw [Tree.withoutTrivia_recastAll,
    Tree.recastAll_eq_map fun tree => Tree.kind_of_mem_withoutTrivia, runs_map (endsRun_recast r)]

theorem runSpans_nil : runSpans [] = [] := rfl

theorem runSpans_append (h : endsRun tree = true) (as bs : List Tree) :
    runSpans (as ++ tree :: bs) = runSpans as ++ runSpans bs := by
  rw [runSpans, runs_append h, List.filterMap_append]
  rfl

theorem runSpans_pending (h : ∀ tree ∈ pending.map .leaf, endsRun tree = false) :
    runSpans (pending.map .leaf) = (Tree.extent pending).toList := by
  cases pending with
  | nil => rfl
  | cons first rest =>
    obtain ⟨span, hs⟩ := Tree.extent_ne_none (List.cons_ne_nil first rest)
    rw [runSpans, runs_of_forall h (by simp), List.filterMap_cons, Tree.leavesAll_map_leaf, hs]
    rfl

namespace Parser

theorem reportDropped_reports (p : Parser) :
    p.reportDropped.reports = p.dropped.toList ++ p.reports := by
  unfold reportDropped
  cases hd : p.dropped <;> rfl

theorem reportDropped_dropped (p : Parser) : p.reportDropped.dropped = none := by
  unfold reportDropped
  cases hd : p.dropped with
  | none => exact hd
  | some span => rfl

theorem note_of_endsRun (h : endsRun tree = true) : p.note tree = p.reportDropped := by
  cases tree with
  | node kind children => rfl
  | leaf t =>
    simp only [endsRun, Bool.or_eq_true, beq_iff_eq] at h
    rw [note, if_pos h]

theorem note_of_not_endsRun (p : Parser) (h : endsRun tree = false) : ∃ t, tree = .leaf t ∧
    p.note tree = p.addDropped t := by
  cases tree with
  | node kind children => cases h
  | leaf t =>
    refine ⟨t, rfl, ?_⟩
    rw [note, if_neg]
    simpa [endsRun] using h

/-- The span that is kept for a run goes on to the token that joins it. -/
theorem addDropped_dropped (hd : p.dropped = Tree.extent pending)
    (ho : Token.Ordered (pending ++ [t])) :
    (p.addDropped t).dropped = Tree.extent (pending ++ [t]) := by
  cases pending with
  | nil => simp [addDropped, hd, Tree.extent, Token.span]
  | cons first rest =>
    obtain ⟨last, hl, he⟩ := Tree.extent_cons first rest
    obtain ⟨hleft, ht, _⟩ := ho.around
    have hfirst := hleft first List.mem_cons_self
    have hlast := hleft last hl
    have hf := ho.filled first (by simp)
    rw [Tree.extent_concat _ t first (by simp), addDropped, hd, he]
    simp only [Option.elim_some, Span.cover, Token.span, Option.some.injEq, Span.mk.injEq]
    omega

theorem reports_reportDropped (hd : p.dropped = Tree.extent pending)
    (hp : ∀ tree ∈ pending.map .leaf, endsRun tree = false) :
    p.reportDropped.reports.reverse = p.reports.reverse ++ runSpans (pending.map .leaf) := by
  rw [reportDropped_reports, List.reverse_append, runSpans_pending hp, ← hd]
  cases p.dropped <;> rfl

/-- Induction on the trees still to come; `pending` holds the tokens of the run that is open. -/
theorem reports_foldl_note (hd : p.dropped = Tree.extent pending)
    (hp : ∀ tree ∈ pending.map .leaf, endsRun tree = false)
    (ho : Token.Ordered (pending ++ Tree.leavesAll us)) :
    (us.foldl note p).reportDropped.reports.reverse =
      p.reports.reverse ++ runSpans (pending.map .leaf ++ us) := by
  induction us generalizing p pending with
  | nil => simpa using reports_reportDropped hd hp
  | cons tree us ih =>
    rw [List.foldl_cons]
    cases he : endsRun tree with
    | true =>
      have hrest : Token.Ordered ([] ++ Tree.leavesAll us) := ho.sublist (by simp)
      have h := ih (reportDropped_dropped p) (by simp) hrest
      rw [note_of_endsRun he, runSpans_append he, h, reports_reportDropped hd hp, List.append_assoc]
      rfl
    | false =>
      obtain ⟨t, rfl, hnote⟩ := note_of_not_endsRun p he
      rw [Tree.leavesAll_cons, Tree.leaves_leaf, ← List.append_assoc] at ho
      have hone : Token.Ordered (pending ++ [t]) := ho.sublist (List.sublist_append_left _ _)
      have hpending : ∀ tree ∈ (pending ++ [t]).map .leaf, endsRun tree = false := by
        intro tree hm
        rw [List.map_append] at hm
        rcases List.mem_append.mp hm with hm | hm
        · exact hp tree hm
        · rw [List.map_singleton, List.mem_singleton] at hm
          rw [hm, he]
      have h := ih (addDropped_dropped hd hone) hpending ho
      rw [hnote, h]
      simp [addDropped]

theorem note_recast (p : Parser) (tree : Tree) : p.note (tree.recast .withoutTrivia) = p.note tree := by
  cases tree with
  | leaf t => rw [Tree.recast_leaf]; rfl
  | node kind children => rw [Tree.recast_node]; rfl

theorem noteAll_eq_foldl (p : Parser) (rounds : List Reading.Round) :
    p.noteAll rounds =
      (rounds.map fun round => round.tree.recast .withoutTrivia).foldl note p := by
  rw [noteAll, List.foldl_map]
  simp only [note_recast]

end Parser

/-- The parser keeps the spans of the runs that are read off the tree. -/
theorem reports_eq_runSpans {row : List Spaced} {tail : List Token}
    (hs : tokenize source = Spaced.tokens row ++ tail) (ht : ∀ t ∈ tail, t.isTrivia = true)
    (above : Bool) :
    ((Parser.ofRow row tail).noteAll (Reading.rounds above row)).reportDropped.reports.reverse =
      runSpans (Tree.withoutTrivia (Reading.file above row ++ tail.map .leaf)) := by
  have hleaves : Tree.leavesAll (Tree.withoutTrivia (Reading.file above row ++ tail.map .leaf)) =
      Token.withoutTrivia (tokenize source) := by
    rw [Tree.withoutTrivia, Tree.leavesAll_recastAll, Recast.tokens_withoutTrivia,
      Tree.leavesAll_append, Reading.leavesAll_file, Tree.leavesAll_map_leaf, hs]
  have ho : Token.Ordered ([] ++ Tree.leavesAll ((Reading.rounds above row).map
      fun round => round.tree.recast .withoutTrivia)) := by
    rw [← Reading.withoutTrivia_file above row ht, hleaves]
    exact (tokenize_consecutive source).toOrdered.sublist List.filter_sublist
  rw [Parser.noteAll_eq_foldl, Parser.reports_foldl_note rfl (by simp) ho,
    Reading.withoutTrivia_file above row ht]
  rfl

/-- The result of a parse, its reports read off its tree. -/
theorem parse_eq_runSpans {row : List Spaced} {tail : List Token}
    (hs : tokenize source = Spaced.tokens row ++ tail) (ht : ∀ t ∈ tail, t.isTrivia = true) :
    let children := Reading.file (Reading.hasSeparator (tokenize source)) row ++ tail.map .leaf
    parse source = .ok ⟨.node .file children, (tokenize source).filterMap Literal.diagnostic? ++
      (runSpans (Tree.withoutTrivia children)).map (unrecognized source)⟩ := by
  intro children
  rw [← reports_eq_runSpans hs ht]
  exact parse_eq hs ht

theorem ne_nil_of_mem_droppedRuns {children : List Tree} (h : run ∈ droppedRuns children) :
    run ≠ [] := by
  obtain ⟨piece, hp, rfl⟩ := List.mem_map.mp h
  intro hnil
  have hleaf := eq_map_leaf_of_mem_runs hp
  rw [hnil] at hleaf
  exact ne_nil_of_mem_runs hp hleaf

theorem sublist_of_mem_droppedRuns {children : List Tree} (h : run ∈ droppedRuns children) :
    run.Sublist (Token.withoutTrivia (Tree.leavesAll children)) := by
  obtain ⟨piece, hp, rfl⟩ := List.mem_map.mp h
  have hflat : piece.Sublist (runs (Tree.withoutTrivia children)).flatten :=
    List.sublist_flatten_of_mem hp
  rw [flatten_runs] at hflat
  have hpiece := hflat.trans List.filter_sublist
  rw [← Recast.tokens_withoutTrivia, ← Tree.leavesAll_recastAll, Tree.leavesAll_eq_flatMap,
    Tree.leavesAll_eq_flatMap]
  exact hpiece.flatMap Tree.leaves

theorem reportsRun_unrecognized (source : List Char) {span : Span} (h : Tree.extent run = some span) :
    ReportsRun source run (unrecognized source span) where
  problem := rfl
  span := h
  message := ⟨_, _, rfl, rfl⟩

theorem reportsRun_droppedRuns (source : List Char) (children : List Tree) :
    List.Forall₂ (ReportsRun source) (droppedRuns children)
      ((runSpans (Tree.withoutTrivia children)).map (unrecognized source)) := by
  have hspans : runSpans (Tree.withoutTrivia children) =
      (droppedRuns children).filterMap Tree.extent := by
    rw [runSpans, droppedRuns, List.filterMap_map]
    rfl
  rw [hspans]
  have hne : ∀ run ∈ droppedRuns children, run ≠ [] := fun run => ne_nil_of_mem_droppedRuns
  generalize droppedRuns children = found at hne ⊢
  induction found with
  | nil => exact .nil
  | cons run rest ih =>
    obtain ⟨span, he⟩ := Tree.extent_ne_none (hne run (by simp))
    rw [List.filterMap_cons_some he, List.map_cons]
    exact .cons (reportsRun_unrecognized source he) (ih fun run hm => hne run (by simp [hm]))

/-- Newlines and separators make no run. -/
theorem droppedRuns_eq_nil_iff (children : List Tree) :
    droppedRuns children = [] ↔
      ∀ t ∈ (File.mk children).dropped, t.kind = .newline ∨ t.kind = .separator := by
  rw [droppedRuns, List.map_eq_nil_iff, runs_eq_nil_iff, File.dropped, Tree.significant]
  induction children with
  | nil => simp
  | cons tree children ih =>
    cases tree with
    | node kind cs => simpa [endsRun, Tree.token?] using ih
    | leaf t =>
      have hone : Tree.withoutTrivia (.leaf t :: children) =
          (Token.withoutTrivia [t]).map .leaf ++ Tree.withoutTrivia children := by
        rw [← Tree.withoutTrivia_map_leaf, ← Tree.withoutTrivia_append]
        rfl
      rw [hone]
      cases ht : t.isTrivia with
      | true => simpa [Token.withoutTrivia, Tree.token?, ht] using ih
      | false => simpa [Token.withoutTrivia, Tree.token?, ht, endsRun] using and_congr Iff.rfl ih

/-- The span of tokens of a source is not empty and lies in the source. -/
theorem span_of_extent {span : Span} (hr : run.Sublist (tokenize source))
    (he : Tree.extent run = some span) :
    span.start < span.stop ∧ span.stop ≤ Text.byteLength source := by
  have ho := (tokenize_consecutive source).toOrdered.sublist hr
  obtain ⟨first, last, hhead, hlast, rfl⟩ := Tree.extent_eq_some_iff.mp he
  have hfirst := List.mem_of_head? hhead
  have hstop := ho.stop_le_of_getLast? hlast hfirst
  refine ⟨Nat.lt_of_lt_of_le (ho.filled first hfirst) hstop, ?_⟩
  exact stop_le_byteLength (hr.subset (List.mem_of_getLast? hlast))

theorem span_of_mem_runSpans {children : List Tree} (hl : Tree.leavesAll children = tokenize source)
    {span : Span} (h : span ∈ runSpans (Tree.withoutTrivia children)) :
    span.start < span.stop ∧ span.stop ≤ Text.byteLength source := by
  obtain ⟨piece, hp, he⟩ := List.mem_filterMap.mp h
  have hrun : Tree.leavesAll piece ∈ droppedRuns children := List.mem_map_of_mem hp
  have hsub := sublist_of_mem_droppedRuns hrun
  rw [hl] at hsub
  exact span_of_extent (hsub.trans List.filter_sublist) he

/-- The diagnostics of a source are those of its tokens, one for each that is flawed, and then one for each
run of dropped tokens, which names the source from the first to the last of them. -/
theorem parse_diagnostics (source : List Char) :
    ∃ children flaws reports, parse source = .ok ⟨.node .file children, flaws ++ reports⟩ ∧
      Literal.Reported (tokenize source) flaws ∧
      List.Forall₂ (ReportsRun source) (droppedRuns children) reports ∧
      (flaws ++ reports = [] ↔
        (∀ t ∈ tokenize source, ∀ problem, ¬ Literal.Flaw t problem) ∧
        ∀ t ∈ (File.mk children).dropped, t.kind = .newline ∨ t.kind = .separator) ∧
      ∀ d ∈ flaws ++ reports,
        d.span.start < d.span.stop ∧ d.span.stop ≤ Text.byteLength source := by
  obtain ⟨row, tail, hs, ht⟩ := Spaced.exists_tokens_eq (tokenize source)
  let children := Reading.file (Reading.hasSeparator (tokenize source)) row ++ tail.map .leaf
  have hleaves : Tree.leavesAll children = tokenize source := by
    rw [Tree.leavesAll_append, Reading.leavesAll_file, Tree.leavesAll_map_leaf, hs]
  have hreports := reportsRun_droppedRuns source children
  refine ⟨children, _, _, parse_eq_runSpans hs ht, Literal.reported_diagnostics _, hreports, ?_, ?_⟩
  · rw [List.append_eq_nil_iff, Literal.diagnostics_eq_nil_iff, ← droppedRuns_eq_nil_iff]
    apply and_congr Iff.rfl
    rw [← List.length_eq_zero_iff, ← hreports.length_eq, List.length_eq_zero_iff]
  · intro d hd
    rcases List.mem_append.mp hd with hd | hd
    · exact Literal.span_of_mem_diagnostics hd
    · obtain ⟨span, hspan, rfl⟩ := List.mem_map.mp hd
      exact span_of_mem_runSpans hleaves hspan

end VoiceScript
