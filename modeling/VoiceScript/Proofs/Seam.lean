import Mathlib.Data.List.TakeWhile
import VoiceScript.Proofs.Shift

namespace VoiceScript

namespace Reading

open Spaced

/-- A row that ends with its last line, and in which every parenthesis that opens is closed. -/
structure Whole (row : List Spaced) : Prop where
  ends : ∀ w ∈ row.getLast?, w.kind = .newline
  closes : ∀ w after, w :: after <:+ row → w.kind = .parenOpen → ∃ v ∈ after, v.kind = .parenClose

/-- A row before which a block ends. -/
def StartsTop (more : List Spaced) : Prop :=
  ∀ w ∈ more.head?, Ahead.isIn .topLevelFirst (some w.kind) = true

/-- The result of a reading, with more tokens after the rest. -/
def followed {α : Type} (more : List Spaced) (result : α × List Spaced) : α × List Spaced :=
  (result.1, result.2 ++ more)

variable {above : Bool} {w v : Spaced} {row rest more : List Spaced} {ts : List Tree}

namespace Whole

theorem suffix (h : Whole row) (hs : rest <:+ row) : Whole rest where
  ends := by
    intro w hw
    obtain ⟨before, rfl⟩ := hs
    apply h.ends
    rw [List.getLast?_append, Option.mem_def.mp hw]
    rfl
  closes := fun w after ha => h.closes w after (ha.trans hs)

theorem tail (h : Whole (w :: row)) : Whole row :=
  h.suffix (List.suffix_cons w row)

theorem dropWhile (h : Whole row) (test : Spaced → Bool) : Whole (row.dropWhile test) :=
  h.suffix (List.dropWhile_suffix test)

/-- Only a newline comes last. -/
theorem tail_ne_nil (h : Whole (w :: row)) (hw : w.kind ≠ .newline) : row ≠ [] := by
  rintro rfl
  exact hw (h.ends w rfl)

theorem bare (h : Whole (w :: row)) : Whole (w.bare :: row) where
  ends := by
    cases row with
    | nil =>
      intro v hv
      cases hv
      exact h.ends w rfl
    | cons u row => exact h.tail.ends
  closes := by
    intro v after hs hv
    rcases List.suffix_cons_iff.mp hs with he | hs
    · cases he
      exact h.closes w row List.suffix_rfl hv
    · exact h.tail.closes v after hs hv

/-- What stops at a newline stops in the row. -/
theorem stops (h : Whole row) (hne : row ≠ []) (stop : Option TokenKind → Bool)
    (hstop : stop (some .newline) = true) : ∃ w ∈ row, takes stop w = false := by
  refine ⟨row.getLast hne, List.getLast_mem hne, ?_⟩
  rw [takes, h.ends _ (List.getLast?_eq_some_getLast hne), hstop]
  rfl

end Whole

theorem takeWhile_followed {test : Spaced → Bool} (h : ∃ w ∈ row, test w = false)
    (more : List Spaced) : (row ++ more).takeWhile test = row.takeWhile test := by
  rw [List.takeWhile_append, if_neg]
  intro hlength
  obtain ⟨w, hw, ht⟩ := h
  have hall := List.takeWhile_eq_self_iff.mp ((List.takeWhile_prefix test).eq_of_length hlength) w hw
  rw [ht] at hall
  cases hall

theorem dropWhile_ne_nil {test : Spaced → Bool} (h : ∃ w ∈ row, test w = false) :
    row.dropWhile test ≠ [] := by
  intro hnil
  obtain ⟨w, hw, ht⟩ := h
  have hall := List.dropWhile_eq_nil_iff.mp hnil w hw
  rw [ht] at hall
  cases hall

theorem dropWhile_followed {test : Spaced → Bool} (h : ∃ w ∈ row, test w = false)
    (more : List Spaced) : (row ++ more).dropWhile test = row.dropWhile test ++ more := by
  rw [List.dropWhile_append, if_neg]
  rw [List.isEmpty_iff]
  exact dropWhile_ne_nil h

theorem Whole.dropWhile_eq_cons {test : Spaced → Bool} (h : Whole row)
    (hstops : ∃ w ∈ row, test w = false) :
    ∃ first rest, row.dropWhile test = first :: rest ∧ Whole (first :: rest) := by
  obtain ⟨first, rest, hd⟩ := List.exists_cons_of_ne_nil (dropWhile_ne_nil hstops)
  exact ⟨first, rest, hd, hd ▸ h.dropWhile test⟩

theorem statement_followed (h : Whole (w :: row)) (hw : w.kind ≠ .newline) (more : List Spaced) :
    statement w (row ++ more) = statement w row := by
  rw [statement, takeWhile_followed (h.tail.stops (h.tail_ne_nil hw) Ahead.isLineEnd rfl), statement]

theorem blockLines_of_startsTop (hm : StartsTop more) : blockLines more = ([], more) := by
  cases more with
  | nil => rw [blockLines]
  | cons w more => rw [blockLines, if_pos (hm w rfl)]

theorem blockLines_followed (h : Whole row) (hm : StartsTop more) :
    blockLines (row ++ more) = followed more (blockLines row) := by
  fun_induction blockLines row with
  | case1 => exact blockLines_of_startsTop hm
  | case2 w row htop =>
    rw [List.cons_append, blockLines, if_pos htop]
    rfl
  | case3 w row htop hw lines ih =>
    rw [List.cons_append, blockLines, if_neg htop, if_pos hw, ih h.tail]
    rfl
  | case4 w row htop hw lines ih =>
    have hstops := h.tail.stops (h.tail_ne_nil hw) Ahead.isLineEnd rfl
    rw [List.cons_append, blockLines, if_neg htop, if_neg hw, dropWhile_followed hstops,
      ih (h.tail.dropWhile _), statement_followed h hw]
    rfl

theorem block_followed (h : Whole row) (hne : row ≠ []) (hm : StartsTop more) :
    block (row ++ more) = followed more (block row) := by
  fun_cases block row with
  | case1 => exact absurd rfl hne
  | case2 w row hw =>
    rw [List.cons_append, block, if_pos hw, ← List.cons_append]
    exact blockLines_followed h hm
  | case3 w row hw =>
    have hstops := h.tail.stops (h.tail_ne_nil hw) Ahead.isLineEnd rfl
    rw [List.cons_append, block, if_neg hw, dropWhile_followed hstops,
      blockLines_followed (h.tail.dropWhile _) hm, statement_followed h hw]
    rfl

theorem eat_followed (kind : TokenKind) (hne : row ≠ []) (more : List Spaced) :
    eat kind (row ++ more) = followed more (eat kind row) := by
  obtain ⟨w, row, rfl⟩ := List.exists_cons_of_ne_nil hne
  rw [List.cons_append, eat, eat]
  split <;> rfl

theorem separatorLine_followed (h : Whole row) (hm : StartsTop more) :
    separatorLine (row ++ more) = followed more (separatorLine row) := by
  cases row with
  | nil =>
    cases more with
    | nil => rfl
    | cons w more =>
      have hw : w.kind ≠ .separator := by
        intro hk
        have htop := hm w rfl
        rw [hk] at htop
        revert htop
        decide
      rw [List.nil_append, separatorLine, separatorLine, if_neg hw]
      rfl
  | cons w row =>
    rw [List.cons_append, separatorLine, separatorLine]
    split
    · rename_i hw
      have hne : row ≠ [] := h.tail_ne_nil (by simp [hw])
      rw [eat_followed .newline hne]
      rfl
    · rfl

theorem headerLine_followed (h : Whole row) (hne : row ≠ []) (hm : StartsTop more) :
    headerLine (row ++ more) = followed more (headerLine row) := by
  have hstops := h.stops hne Ahead.isLineEnd rfl
  have hrest := (h.dropWhile (takes Ahead.isLineEnd)).suffix ⟨_, eat_append .newline _⟩
  rw [headerLine, headerLine, takeWhile_followed hstops, dropWhile_followed hstops,
    eat_followed .newline (dropWhile_ne_nil hstops)]
  simp only [followed, separatorLine_followed hrest hm]

theorem header?_followed (above : Bool) (h : Whole row) (hne : row ≠ []) (hm : StartsTop more) :
    header? above (row ++ more) = (header? above row).map (followed more) := by
  have hstops : ∃ w ∈ row, isModifier w = false := h.stops hne _ rfl
  obtain ⟨key, rest, hd, hwhole⟩ := h.dropWhile_eq_cons hstops
  rw [header?, header?, dropWhile_followed hstops, takeWhile_followed hstops, hd, List.cons_append]
  cases rest with
  | nil =>
    -- The last token of the row is a newline, so no key, and what follows is not looked at.
    have hkey : Ahead.isKey above key.kind = false := by
      rw [hwhole.ends key rfl]
      rfl
    cases more with
    | nil => rfl
    | cons v more => simp [hkey]
  | cons colon after =>
    simp only [List.cons_append]
    split
    · rename_i hk
      have hcolon : colon.kind = .colon := by simpa using (Bool.and_eq_true_iff.mp hk).2
      have hafter : after ≠ [] := hwhole.tail.tail_ne_nil (by simp [hcolon])
      rw [headerLine_followed hwhole.tail.tail hafter hm]
      rfl
    · rfl

theorem arguments?_followed (h : Whole row) (hne : row ≠ []) (more : List Spaced) :
    arguments? (row ++ more) = (arguments? row).map (followed more) := by
  obtain ⟨w, row, rfl⟩ := List.exists_cons_of_ne_nil hne
  rw [List.cons_append, arguments?, arguments?]
  split
  · rename_i hw
    obtain ⟨v, hv, hclose⟩ := h.closes w row List.suffix_rfl hw
    have hstops : ∃ v ∈ row, takes (· == some .parenClose) v = false :=
      ⟨v, hv, by simp [takes, hclose]⟩
    obtain ⟨close, rest, hd⟩ := List.exists_cons_of_ne_nil (dropWhile_ne_nil hstops)
    rw [dropWhile_followed hstops, takeWhile_followed hstops, hd]
    rfl
  · rfl

/-- The arguments of a binding leave something of the row. -/
theorem rest_arguments? (h : Whole row) (hne : row ≠ []) (ha : arguments? row = some (ts, rest)) :
    Whole rest ∧ rest ≠ [] := by
  rcases arguments?_eq_some ha with ⟨_, _, rfl⟩ | ⟨w, after, close, rfl, _, hd, _⟩
  · exact ⟨h, hne⟩
  · have hwhole := h.tail.dropWhile (takes (· == some .parenClose))
    rw [hd] at hwhole
    refine ⟨hwhole.tail, hwhole.tail_ne_nil ?_⟩
    have hclose := List.head?_dropWhile_not (takes (· == some .parenClose)) after
    rw [hd] at hclose
    intro hk
    simp [takes, hk] at hclose

theorem binding?_followed (h : Whole row) (hne : row ≠ []) (hm : StartsTop more) :
    binding? (row ++ more) = (binding? row).map (followed more) := by
  obtain ⟨keyword, row, rfl⟩ := List.exists_cons_of_ne_nil hne
  rw [List.cons_append, binding?, binding?]
  split
  · rename_i hk
    have hrow : row ≠ [] := by
      apply h.tail_ne_nil
      intro hw
      rw [hw] at hk
      revert hk
      decide
    rw [arguments?_followed h.tail hrow]
    cases ha : arguments? row with
    | none => rfl
    | some result =>
      obtain ⟨arguments, rest⟩ := result
      obtain ⟨hwhole, hrest⟩ := rest_arguments? h.tail hrow ha
      obtain ⟨colon, after, rfl⟩ := List.exists_cons_of_ne_nil hrest
      simp only [Option.map_some, followed, List.cons_append]
      split
      · rename_i hc
        rw [block_followed hwhole.tail (hwhole.tail_ne_nil (by simp [hc])) hm]
        rfl
      · rfl
  · rfl

theorem command?_followed (h : Whole row) (hne : row ≠ []) (hm : StartsTop more) :
    command? (row ++ more) = (command? row).map (followed more) := by
  have hstops := h.stops hne (Ahead.isIn .ruleEnd) (by decide)
  obtain ⟨colon, after, hd, hwhole⟩ := h.dropWhile_eq_cons hstops
  rw [command?, command?, dropWhile_followed hstops, takeWhile_followed hstops, hd, List.cons_append]
  cases row.takeWhile (takes (Ahead.isIn .ruleEnd)) with
  | nil => rfl
  | cons first rule =>
    simp only
    split
    · rename_i hc
      rw [block_followed hwhole.tail (hwhole.tail_ne_nil (by simp [hc])) hm]
      rfl
    · rfl

theorem construct?_followed (above : Bool) (h : Whole row) (hne : row ≠ []) (hm : StartsTop more) :
    construct? above (row ++ more) = (construct? above row).map (followed more) := by
  rw [construct?, construct?, header?_followed above h hne hm, binding?_followed h hne hm,
    command?_followed h hne hm]
  cases header? above row with
  | some result => rfl
  | none => cases binding? row <;> rfl

theorem next_followed (above : Bool) (h : Whole (w :: row)) (hm : StartsTop more) :
    next above w (row ++ more) = followed more (next above w row) := by
  rw [next, next, ← List.cons_append, construct?_followed above h.bare (by simp) hm]
  cases construct? above (w.bare :: row) <;> rfl

/-- What is read of a row of whole lines does not change with what follows, and that is read as the rest of
a text without a separator above it. -/
theorem file_followed (above : Bool) (h : Whole row) (hm : StartsTop more) :
    file above (row ++ more) =
      file above row ++ file (above && !hasSeparator (tokens row)) more := by
  fun_induction rounds above row with
  | case1 above => simp [file_nil, hasSeparator]
  | case2 above w row ih =>
    obtain ⟨taken, hrow, hleaves⟩ := splits_next above w row
    have hrest : Whole (next above w row).2 := h.tail.suffix ⟨taken, hrow.symm⟩
    -- Each separator of the row is in the tree of this round or in the rest.
    have hflag : (above && !hasSeparator (tokens (w :: row))) =
        (above && !hasSeparator (next above w row).1.leaves &&
          !hasSeparator (tokens (next above w row).2)) := by
      conv => lhs; rw [hrow]
      rw [hleaves, tokens_cons, tokens_append, ← List.cons_append, hasSeparator_append,
        hasSeparator_append, hasSeparator_trivia w.lead_isTrivia, Bool.false_or, Bool.not_or,
        Bool.and_assoc]
    rw [List.cons_append, file_cons, next_followed above h hm]
    simp only [followed]
    rw [ih hrest, file_cons, hflag, List.append_assoc, List.cons_append]

/-- The last of whole lines ends a run of dropped tokens, if there is one. -/
theorem runSpans_followed (h : Whole row) (above : Bool) (trees : List Tree) :
    runSpans (Tree.withoutTrivia (file above row) ++ trees) =
      runSpans (Tree.withoutTrivia (file above row)) ++ runSpans trees := by
  have hleaves : Tree.leavesAll (Tree.withoutTrivia (file above row)) = row.map token := by
    rw [Tree.withoutTrivia, Tree.leavesAll_recastAll, Recast.tokens_withoutTrivia, leavesAll_file,
      withoutTrivia_row]
  rcases List.eq_nil_or_concat (Tree.withoutTrivia (file above row)) with hnil | ⟨before, last, hlast⟩
  · rw [hnil]
    rfl
  · rw [List.concat_eq_append] at hlast
    have hends : endsRun last = true := by
      cases last with
      | node kind children => rfl
      | leaf t =>
        have ht : (row.map token).getLast? = some t := by
          rw [← hleaves, hlast, Tree.leavesAll_append]
          exact List.getLast?_concat
        rw [List.getLast?_map] at ht
        obtain ⟨w, hw, rfl⟩ := Option.map_eq_some_iff.mp ht
        have hk : w.token.kind = .newline := h.ends w hw
        rw [endsRun, hk]
        rfl
    rw [hlast, List.append_assoc, List.singleton_append, runSpans_append hends,
      runSpans_append hends, runSpans_nil, List.append_nil]

end Reading

/-- Two texts of which the second can be put after the first: one of whole lines in which every parenthesis
that opens is closed, and one without a separator before which a block ends. -/
structure Seam (a b : List Char) : Prop where
  ends : ∀ t ∈ (tokenize a).getLast?, t.kind = .newline
  closes : ∀ t ∈ tokenize a, t.kind = .parenOpen →
    ∃ u ∈ tokenize a, u.kind = .parenClose ∧ t.start < u.start
  plain : ∀ t ∈ tokenize b, t.kind ≠ .separator
  top : ∀ t ∈ (Token.withoutTrivia (tokenize b)).head?,
    KindSet.topLevelFirst.contains (.token t.kind) = true

namespace Seam

open Spaced

variable {a b : List Char} {row more : List Spaced} {tail rest : List Token}

/-- There is no trivia at the end of whole lines. -/
theorem tail_eq_nil (h : Seam a b) (hs : tokenize a = tokens row ++ tail)
    (ht : ∀ t ∈ tail, t.isTrivia = true) : tail = [] := by
  rcases List.eq_nil_or_concat tail with hnil | ⟨before, last, hlast⟩
  · exact hnil
  · rw [List.concat_eq_append] at hlast
    have htrivia := ht last (by simp [hlast])
    have hk := h.ends last (by simp [hs, hlast])
    rw [Token.isTrivia, hk] at htrivia
    cases htrivia

theorem whole (h : Seam a b) (hs : tokenize a = tokens row) : Reading.Whole row where
  ends := by
    intro w hw
    obtain ⟨before, rfl⟩ := List.getLast?_eq_some_iff.mp hw
    apply h.ends w.token
    rw [hs]
    simp
  closes := by
    rintro w after ⟨before, rfl⟩ hw
    have hrow : Token.withoutTrivia (tokenize a) = (before ++ w :: after).map token := by
      rw [hs, Reading.withoutTrivia_row]
    have ho : Token.Ordered ((before ++ w :: after).map token) := by
      rw [← hrow]
      exact (tokenize_consecutive a).toOrdered.sublist List.filter_sublist
    obtain ⟨u, hu, hclose, hlater⟩ := h.closes w.token (by rw [hs]; simp) hw
    have hmem : u ∈ (before ++ w :: after).map token := by
      rw [← hrow]
      exact List.mem_filter.mpr ⟨hu, by rw [Token.isTrivia, hclose]; rfl⟩
    obtain ⟨v, hv, rfl⟩ := List.mem_map.mp hmem
    rcases List.mem_append.mp hv with hv | hv
    · rw [List.map_append] at ho
      have hapart := ho.around.1 v.token (List.mem_map_of_mem hv)
      have hfilled := ho.filled v.token (List.mem_append_left _ (List.mem_map_of_mem hv))
      omega
    · rcases List.mem_cons.mp hv with rfl | hv
      · exact absurd hlater (Nat.lt_irrefl _)
      · exact ⟨v, hv, hclose⟩

theorem startsTop (h : Seam a b) (hs : tokenize b = tokens more ++ rest)
    (ht : ∀ t ∈ rest, t.isTrivia = true) (r : Recast) : Reading.StartsTop (more.map (recast r)) := by
  intro v hv
  rw [List.head?_map] at hv
  obtain ⟨w, hw, rfl⟩ := Option.map_eq_some_iff.mp hv
  rw [kind_recast]
  apply h.top w.token
  rw [hs, Reading.withoutTrivia_tokens ht, List.head?_map, hw]
  rfl

theorem hasSeparator_eq_false (h : Seam a b) : Reading.hasSeparator (tokenize b) = false := by
  apply List.any_eq_false.mpr
  intro t ht
  simpa using h.plain t ht

theorem hasSeparator_append (h : Seam a b) :
    Reading.hasSeparator (tokenize (a ++ b)) = Reading.hasSeparator (tokenize a) := by
  rw [tokenize_append h.ends, ← Recast.tokens_shift, Reading.hasSeparator_append,
    Reading.hasSeparator_recast, h.hasSeparator_eq_false, Bool.or_false]

/-- The trees of the texts together. -/
theorem file_append (h : Seam a b) (ha : tokenize a = tokens row)
    (hb : tokenize b = tokens more ++ rest) (ht : ∀ t ∈ rest, t.isTrivia = true) (n : Nat) :
    Reading.file (Reading.hasSeparator (tokenize (a ++ b))) (row ++ more.map (recast (.shift n))) ++
        ((Recast.shift n).tokens rest).map Tree.leaf =
      Reading.file (Reading.hasSeparator (tokenize a)) row ++
        (Reading.file (Reading.hasSeparator (tokenize b)) more ++ rest.map Tree.leaf).map
          (Tree.shift n) := by
  have hflag : (Reading.hasSeparator (tokenize a) && !Reading.hasSeparator (tokens row)) =
      Reading.hasSeparator (tokenize b) := by
    rw [ha, Bool.and_not_self, h.hasSeparator_eq_false]
  rw [h.hasSeparator_append, Reading.file_followed _ (h.whole ha) (h.startsTop hb ht _), hflag,
    ← Tree.recastAll_shift, Reading.recastAll_file, List.append_assoc]

end Seam

/-- The reports of dropped tokens in two texts together. -/
theorem map_unrecognized_append {a : List Char} {spans : List Span}
    (h : ∀ span ∈ spans, span.stop ≤ Text.byteLength a) (b : List Char) (more : List Span) :
    (spans ++ more.map (Span.shift (Text.byteLength a))).map (unrecognized (a ++ b)) =
      spans.map (unrecognized a) ++
        (more.map (unrecognized b)).map (Diagnostic.shift (Text.byteLength a)) := by
  rw [List.map_append, List.map_map, List.map_map]
  congr 1
  · apply List.map_congr_left
    intro span hs
    exact unrecognized_append (h span hs) b
  · apply List.map_congr_left
    intro span _
    exact unrecognized_shift a b span

/-- Whether a diagnostic is about a single token. -/
def Diagnostic.isLexical (d : Diagnostic) : Bool :=
  d.problem != .unrecognizedInput

theorem Literal.isLexical_of_mem {d : Diagnostic} {tokens : List Token}
    (h : d ∈ tokens.filterMap diagnostic?) : d.isLexical = true := by
  obtain ⟨t, _, ht⟩ := List.mem_filterMap.mp h
  have hflaw : Flaw t d.problem := (problem_diagnostic?_iff t d.problem).mp (by rw [ht]; rfl)
  rw [Diagnostic.isLexical]
  generalize d.problem = problem at hflaw ⊢
  cases hflaw <;> rfl

section

variable (source : List Char) (tokens : List Token) (spans : List Span)

theorem filter_isLexical :
    (tokens.filterMap Literal.diagnostic? ++ spans.map (unrecognized source)).filter
      Diagnostic.isLexical = tokens.filterMap Literal.diagnostic? := by
  have hnone : (spans.map (unrecognized source)).filter Diagnostic.isLexical = [] := by
    rw [List.filter_eq_nil_iff]
    intro d hd
    obtain ⟨span, _, rfl⟩ := List.mem_map.mp hd
    exact Bool.false_ne_true
  rw [List.filter_append, hnone, List.append_nil, List.filter_eq_self]
  exact fun d => Literal.isLexical_of_mem

theorem filter_not_isLexical :
    (tokens.filterMap Literal.diagnostic? ++ spans.map (unrecognized source)).filter
      (fun d => !d.isLexical) = spans.map (unrecognized source) := by
  have hnone : (tokens.filterMap Literal.diagnostic?).filter (fun d => !d.isLexical) = [] := by
    rw [List.filter_eq_nil_iff]
    intro d hd
    rw [Literal.isLexical_of_mem hd]
    exact Bool.false_ne_true
  rw [List.filter_append, hnone, List.nil_append, List.filter_eq_self]
  intro d hd
  obtain ⟨span, _, rfl⟩ := List.mem_map.mp hd
  rfl

end

/-- Two texts together have the children of the first and then those of the second, moved, and so it is with
the diagnostics of single tokens and with those of dropped ones. -/
theorem parse_append (a b : List Char) (h : Seam a b) :
    let n := Text.byteLength a
    ∃ first second ds es fs, parse a = .ok ⟨.node .file first, ds⟩ ∧
      parse b = .ok ⟨.node .file second, es⟩ ∧
      parse (a ++ b) = .ok ⟨.node .file (first ++ second.map (Tree.shift n)), fs⟩ ∧
      fs.filter Diagnostic.isLexical = ds.filter Diagnostic.isLexical ++
        (es.filter Diagnostic.isLexical).map (Diagnostic.shift n) ∧
      fs.filter (fun d => !d.isLexical) = ds.filter (fun d => !d.isLexical) ++
        (es.filter fun d => !d.isLexical).map (Diagnostic.shift n) := by
  intro n
  obtain ⟨row, tail, hrow, htail⟩ := Spaced.exists_tokens_eq (tokenize a)
  obtain ⟨more, rest, hmore, hrest⟩ := Spaced.exists_tokens_eq (tokenize b)
  obtain rfl := h.tail_eq_nil hrow htail
  have hends : tokenize a = Spaced.tokens row := by rw [hrow, List.append_nil]
  have htokens : tokenize (a ++ b) = tokenize a ++ (tokenize b).map (Token.shift n) :=
    tokenize_append h.ends b
  have hall : tokenize (a ++ b) = Spaced.tokens (row ++ more.map (Spaced.recast (.shift n))) ++
      (Recast.shift n).tokens rest := by
    rw [htokens, ← Recast.tokens_shift, hends, hmore, Spaced.tokens_append, Spaced.tokens_recast,
      Recast.tokens_append, List.append_assoc]
  have ha := parse_eq_runSpans hrow htail
  have hb := parse_eq_runSpans hmore hrest
  have hab := parse_eq_runSpans hall (Recast.tokens_isTrivia hrest)
  simp only [List.map_nil, List.append_nil] at ha
  simp only [h.file_append hends hmore hrest n] at hab
  refine ⟨_, _, _, _, _, ha, hb, hab, ?_, ?_⟩
  · rw [filter_isLexical, filter_isLexical, filter_isLexical, htokens, List.filterMap_append,
      Literal.diagnostics_shift]
  · have hleaves : Tree.leavesAll (Reading.file (Reading.hasSeparator (tokenize a)) row) =
        tokenize a := by
      rw [Reading.leavesAll_file, hends]
    rw [filter_not_isLexical, filter_not_isLexical, filter_not_isLexical, Tree.withoutTrivia_append,
      Reading.runSpans_followed (h.whole hends), runSpans_shift, map_unrecognized_append]
    intro span hs
    exact (span_of_mem_runSpans hleaves hs).2

/-- Headers and a binding with a dropped line, and then an indented rule with a string that does not end. -/
theorem parse_header_then_rule :
    let a := "not app: x\n---\nkey(a): b\n) c\n".toList
    let b := "  d: \"e\n".toList
    Seam a b ∧ ∃ first second ds es fs, parse a = .ok ⟨.node .file first, ds⟩ ∧
      parse b = .ok ⟨.node .file second, es⟩ ∧
      parse (a ++ b) = .ok ⟨.node .file (first ++ second.map (Tree.shift 29)), fs⟩ ∧
      fs.filter Diagnostic.isLexical = ds.filter Diagnostic.isLexical ++
        (es.filter Diagnostic.isLexical).map (Diagnostic.shift 29) ∧
      fs.filter (fun d => !d.isLexical) = ds.filter (fun d => !d.isLexical) ++
        (es.filter fun d => !d.isLexical).map (Diagnostic.shift 29) := by
  intro a b
  have hseam : Seam a b := by
    constructor
    · decide +kernel
    · decide +kernel
    · decide +kernel
    · decide +kernel
  have hlength : Text.byteLength a = 29 := by decide +kernel
  rw [← hlength]
  exact ⟨hseam, parse_append a b hseam⟩

end VoiceScript
