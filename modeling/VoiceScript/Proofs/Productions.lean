import VoiceScript.Parser.Grammar
import VoiceScript.Proofs.Writing

namespace VoiceScript.Parser

open Spaced Reading

variable {n : Nat} {w : Spaced} {row rest : List Spaced} {tail : List Token} {tree : Tree}
  {ts : List Tree} {p q : Parser}

theorem statement_ok (h : Faces n (w :: row) tail p) (hn : n < fullPatience)
    (hw : w.kind ≠ .newline) :
    ∃ q, p.statement = .ok q ∧ Comes 1 (row.dropWhile (takes Ahead.isLineEnd)) tail q ∧
      Wrote (Reading.statement w row) p q := by
  have ht : takes Ahead.isLineEnd w.bare = true := by
    simpa [takes, Ahead.isLineEnd] using hw
  obtain ⟨a, ha, fa, wa⟩ := bumpUntil_cons_ok (h.openNode .statement).comes hn ht (.inl rfl)
  have hs := wa.node h.front_isTrivia
  rw [h.trivia] at hs
  refine ⟨a.closeNode, bind_ok.mpr ⟨a, ha, rfl⟩, fa.comes.closeNode, ?_⟩
  simpa [Reading.statement, opened, leaves_cons, bare, front] using hs

theorem separatorLine_ok (h : Comes n row tail p) (hn : n < fullPatience) :
    ∃ q, p.separatorLine = .ok q ∧ Comes (n + 1) (Reading.separatorLine row).2 tail q ∧
      Wrote (leaves (Reading.separatorLine row).1) p q := by
  obtain ⟨a, hl, fa, wa⟩ := look_ok h hn
  cases row with
  | nil =>
    refine ⟨a, bind_ok.mpr ⟨a, hl, ?_⟩, fa.comes, wa⟩
    rw [fa.next?]
    rfl
  | cons w row =>
    by_cases hw : w.kind = .separator
    · obtain ⟨b, hb, cb, wb⟩ := bump_ok fa
      obtain ⟨c, hc, cc, wc⟩ := eat_ok .newline cb (by decide)
      refine ⟨c, bind_ok.mpr ⟨a, hl, ?_⟩, ?_, ?_⟩
      · rw [fa.next?, if_pos (by simp [hw])]
        exact bind_ok.mpr ⟨b, hb, hc⟩
      · simpa [Reading.separatorLine, hw] using cc.mono (by omega)
      · have hs := (wa.trans wb).trans wc
        rw [List.nil_append, ← leaves_append] at hs
        simpa [Reading.separatorLine, hw] using hs
    · refine ⟨a, bind_ok.mpr ⟨a, hl, ?_⟩, ?_, ?_⟩
      · rw [fa.next?, if_neg (by simpa using hw)]
        rfl
      · simpa [Reading.separatorLine, hw] using fa.comes
      · simpa [Reading.separatorLine, hw] using wa

theorem header_ok (h : Faces n (w :: row) tail p) (hn : n < fullPatience) {above : Bool}
    (hr : header? above (w.bare :: row) = some (tree, rest)) :
    ∃ q, p.header = .ok q ∧ Comes 3 rest tail q ∧ Wrote (w.lead.map .leaf ++ [tree]) p q := by
  obtain ⟨key, colon, after, hd, _, hc, rfl, rfl⟩ := header?_eq_some hr
  obtain ⟨a, ha, fa, wa⟩ := bumpUntil_ok (fun kind => !Ahead.isIn .modifiers kind)
    (h.openNode .header).comes hn (.inl rfl)
  change Faces _ ((w.bare :: row).dropWhile isModifier) tail a at fa
  rw [hd] at fa
  obtain ⟨b, hb, cb, wb⟩ := bump_ok fa
  obtain ⟨c, hc, cc, wc⟩ := expect_ok cb (by decide) hc
  obtain ⟨d, hd, fd, wd⟩ := bumpUntil_ok Ahead.isLineEnd cc (by decide) (.inl rfl)
  obtain ⟨e, he, ce, we⟩ := eat_ok .newline fd.comes (by decide)
  obtain ⟨f, hf, cf, wf⟩ := separatorLine_ok ce (by decide)
  have hs := (((((wa.trans wb).trans wc).trans wd).trans we).trans wf).node h.front_isTrivia
  rw [h.trivia] at hs
  refine ⟨f.closeNode, bind_ok.mpr ⟨a, ha, bind_ok.mpr ⟨b, hb, bind_ok.mpr ⟨c, hc,
    bind_ok.mpr ⟨d, hd, bind_ok.mpr ⟨e, he, bind_ok.mpr ⟨f, hf, rfl⟩⟩⟩⟩⟩⟩, cf.closeNode, ?_⟩
  simp only [← leaves_append] at hs
  simpa [headerLine, front, isModifier] using hs

theorem blockLines_of_look (hl : p.look = .ok q) :
    p.blockLines =
      if q.next? = none ∨ Ahead.isIn .topLevelFirst q.next? then .ok q
      else if q.next? = some .newline then q.bump >>= blockLines
      else q.statementLine >>= blockLines := by
  rw [blockLines]
  split
  · simp_all
  · rename_i hq
    cases hl.symm.trans hq
    split
    · rfl
    · split
      · split
        · rename_i hb
          rw [hb]
          rfl
        · rename_i hb
          rw [hb]
          rfl
      · split
        · rename_i hs
          rw [hs]
          rfl
        · rename_i hs
          rw [hs]
          rfl

/-- The newline after a statement may be taken with the statement. -/
theorem blockLines_eat (row : List Spaced) :
    Reading.blockLines row =
      (leaves (Reading.eat .newline row).1 ++ (Reading.blockLines (Reading.eat .newline row).2).1,
        (Reading.blockLines (Reading.eat .newline row).2).2) := by
  cases row with
  | nil => simp [Reading.eat]
  | cons w row =>
    by_cases hw : w.kind = .newline
    · have ht : ¬ Ahead.isIn .topLevelFirst (some w.kind) = true := by rw [hw]; decide
      rw [Reading.blockLines, if_neg ht, if_pos hw, Reading.eat, if_pos hw]
    · simp [Reading.eat, hw]

theorem statementLine_ok (h : Faces n (w :: row) tail p) (hn : n < fullPatience)
    (hw : w.kind ≠ .newline) :
    ∃ q, p.statementLine = .ok q ∧
      Comes 2 (Reading.eat .newline (row.dropWhile (takes Ahead.isLineEnd))).2 tail q ∧
      Wrote (Reading.statement w row ++
        leaves (Reading.eat .newline (row.dropWhile (takes Ahead.isLineEnd))).1) p q := by
  obtain ⟨a, ha, ca, wa⟩ := statement_ok h hn hw
  obtain ⟨b, hb, cb, wb⟩ := eat_ok .newline ca (by decide)
  exact ⟨b, bind_ok.mpr ⟨a, ha, hb⟩, cb, wa.trans wb⟩

theorem length_eat_le (kind : TokenKind) (row : List Spaced) :
    (Reading.eat kind row).2.length ≤ row.length := by
  have := congrArg List.length (eat_append kind row)
  simp only [List.length_append] at this
  omega

/-- Induction on the length of the row: the reading takes the newline after a statement in a step of
its own, the parser at once with the statement. -/
theorem blockLines_ok (h : Comes n row tail p) (hn : n ≤ 2) :
    ∃ q, p.blockLines = .ok q ∧ Comes 3 (Reading.blockLines row).2 tail q ∧
      Wrote (Reading.blockLines row).1 p q := by
  generalize he : row.length = length
  induction length using Nat.strongRecOn generalizing n row p with
  | ind length ih =>
    have hfull : n + 1 < fullPatience := Nat.lt_of_le_of_lt (Nat.succ_le_succ hn) (by decide)
    obtain ⟨a, hl, fa, wa⟩ := look_ok h (by omega)
    rw [blockLines_of_look hl, fa.next?]
    cases row with
    | nil =>
      rw [if_pos (.inl rfl), Reading.blockLines]
      exact ⟨a, rfl, fa.comes.mono (by omega), wa⟩
    | cons w row =>
      rw [Reading.blockLines, List.head?_cons, Option.map_some]
      by_cases ht : Ahead.isIn .topLevelFirst (some w.kind) = true
      · rw [if_pos (.inr ht), if_pos ht]
        exact ⟨a, rfl, fa.comes.mono (by omega), wa⟩
      · rw [if_neg (by simpa using ht), if_neg ht]
        by_cases hw : w.kind = .newline
        · rw [if_pos (by rw [hw]), if_pos hw]
          obtain ⟨b, hb, cb, wb⟩ := bump_ok fa
          obtain ⟨c, hc, cc, wc⟩ := ih row.length (by simp [← he]) cb (Nat.zero_le 2) rfl
          exact ⟨c, bind_ok.mpr ⟨b, hb, hc⟩, cc, (wa.trans wb).trans wc⟩
        · rw [if_neg (by simpa using hw), if_neg hw]
          have hlen := length_eat_le .newline (row.dropWhile (takes Ahead.isLineEnd))
          have hdrop := (List.dropWhile_sublist (takes Ahead.isLineEnd) (l := row)).length_le
          rw [List.length_cons] at he
          obtain ⟨b, hb, cb, wb⟩ := statementLine_ok fa hfull hw
          obtain ⟨c, hc, cc, wc⟩ := ih _ (by omega) cb (Nat.le_refl 2) rfl
          have hs := (wa.trans wb).trans wc
          rw [List.nil_append, List.append_assoc] at hs
          rw [blockLines_eat]
          exact ⟨c, bind_ok.mpr ⟨b, hb, hc⟩, cc, hs⟩

theorem colonLine_ok (h : Comes n (w :: row) tail p) (hn : n + 1 < fullPatience)
    (hw : w.kind ≠ .newline) :
    ∃ q, p.colonLine = .ok q ∧ Comes 1 (row.dropWhile (takes Ahead.isLineEnd)) tail q ∧
      Wrote (Reading.statement w row) p q := by
  obtain ⟨a, hl, fa, wa⟩ := look_ok h (by omega)
  obtain ⟨b, hb, cb, wb⟩ := statement_ok fa hn hw
  refine ⟨b, bind_ok.mpr ⟨a, hl, ?_⟩, cb, wa.trans wb⟩
  rw [fa.next?, if_neg (by simpa [Ahead.isLineEnd] using hw)]
  exact hb

theorem colonLine_lineEnd (h : Comes n row tail p) (hn : n < fullPatience)
    (hr : Ahead.isLineEnd (row.head?.map Spaced.kind) = true) :
    ∃ q, p.colonLine = .ok q ∧ Comes (n + 1) row tail q ∧ Wrote [] p q := by
  obtain ⟨a, hl, fa, wa⟩ := look_ok h hn
  refine ⟨a, bind_ok.mpr ⟨a, hl, ?_⟩, fa.comes, wa⟩
  rw [fa.next?, if_pos hr]
  rfl

/-- Lines of a block after the end of the line before them. -/
theorem lines_ok (h : Comes 1 row tail p) :
    ∃ q, (p.eat .newline >>= blockLines) = .ok q ∧ Comes 3 (Reading.blockLines row).2 tail q ∧
      Wrote (Reading.blockLines row).1 p q := by
  obtain ⟨a, ha, ca, wa⟩ := eat_ok .newline h (by decide)
  obtain ⟨b, hb, cb, wb⟩ := blockLines_ok ca (Nat.le_refl 2)
  rw [blockLines_eat]
  exact ⟨b, bind_ok.mpr ⟨a, ha, hb⟩, cb, wa.trans wb⟩

theorem block_ok (h : Comes 0 row tail p) :
    ∃ q, p.block = .ok q ∧ Comes 3 (Reading.block row).2 tail q ∧ Wrote (Reading.block row).1 p q := by
  fun_cases Reading.block row with
  | case1 =>
    obtain ⟨a, ha, ca, wa⟩ := colonLine_lineEnd h (by decide) rfl
    obtain ⟨b, hb, cb, wb⟩ := lines_ok ca
    rw [Reading.blockLines] at cb wb
    exact ⟨b, bind_ok.mpr ⟨a, ha, hb⟩, cb, wa.trans wb⟩
  | case2 w row hw =>
    obtain ⟨a, ha, ca, wa⟩ := colonLine_lineEnd h (by decide) (by simp [hw, Ahead.isLineEnd])
    obtain ⟨b, hb, cb, wb⟩ := lines_ok ca
    exact ⟨b, bind_ok.mpr ⟨a, ha, hb⟩, cb, wa.trans wb⟩
  | case3 w row hw =>
    obtain ⟨a, ha, ca, wa⟩ := colonLine_ok h (by decide) hw
    obtain ⟨b, hb, cb, wb⟩ := lines_ok ca
    exact ⟨b, bind_ok.mpr ⟨a, ha, hb⟩, cb, wa.trans wb⟩

theorem command_ok (h : Faces n (w :: row) tail p) (hn : n + 1 < fullPatience)
    (hr : command? (w.bare :: row) = some (tree, rest)) :
    ∃ q, p.command = .ok q ∧ Comes 3 rest tail q ∧ Wrote (w.lead.map .leaf ++ [tree]) p q := by
  obtain ⟨first, rule, colon, after, ht, hd, hc, rfl, rfl⟩ := command?_eq_some hr
  have hne : (w.bare :: row).dropWhile (takes (Ahead.isIn .ruleEnd)) ≠ [] := by simp [hd]
  have hinner := h.openNode .command
  have hopen : Faces n (w.bare :: row) tail ((p.openNode .command).openNode .rule) :=
    hinner.openNode .rule
  obtain ⟨a, ha, fa, wa⟩ := bumpUntil_ok (Ahead.isIn .ruleEnd) hopen.comes (by omega) (.inr hne)
  rw [hd] at fa
  rw [ht] at wa
  have wr := wa.node hinner.front_isTrivia
  obtain ⟨b, hb, cb, wb⟩ := expect_ok fa.comes.closeNode hn hc
  obtain ⟨c, hc, cc, wc⟩ := block_ok cb
  have hs := ((wr.trans wb).trans wc).node h.front_isTrivia
  rw [h.trivia, hinner.trivia] at hs
  exact ⟨c.closeNode, bind_ok.mpr ⟨a, ha, bind_ok.mpr ⟨b, hb, bind_ok.mpr ⟨c, hc, rfl⟩⟩⟩,
    cc.closeNode, hs⟩

theorem arguments_ok (h : Comes n row tail p) (hn : n < fullPatience)
    (hr : arguments? row = some (ts, rest)) :
    ∃ q, p.arguments = .ok q ∧ Comes (n + 1) rest tail q ∧ Wrote ts p q := by
  obtain ⟨a, hl, fa, wa⟩ := look_ok h hn
  rcases arguments?_eq_some hr with ⟨hrow, rfl, rfl⟩ | ⟨w, after, close, rfl, hw, hd, rfl⟩
  · refine ⟨a, bind_ok.mpr ⟨a, hl, ?_⟩, fa.comes, wa⟩
    rw [fa.next?, if_neg hrow]
    rfl
  · have hne : after.dropWhile (takes (· == some .parenClose)) ≠ [] := by simp [hd]
    obtain ⟨b, hb, cb, wb⟩ := bump_ok (fa.openNode .bindingArgs)
    obtain ⟨c, hc, fc, wc⟩ := bumpUntil_ok (· == some .parenClose) cb (by decide) (.inr hne)
    rw [hd] at fc
    obtain ⟨d, hd, cd, wd⟩ := bump_ok fc
    have hs := ((wb.trans wc).trans wd).node fa.front_isTrivia
    rw [fa.trivia] at hs
    refine ⟨d.closeNode, bind_ok.mpr ⟨a, hl, ?_⟩, (cd.mono (Nat.zero_le _)).closeNode, ?_⟩
    · rw [fa.next?, if_pos (by simp [hw])]
      exact bind_ok.mpr ⟨b, hb, bind_ok.mpr ⟨c, hc, bind_ok.mpr ⟨d, hd, rfl⟩⟩⟩
    · simpa [opened, leaves_cons, bare, front] using wa.trans hs

theorem binding_ok (h : Faces n (w :: row) tail p)
    (hr : binding? (w.bare :: row) = some (tree, rest)) :
    ∃ q, p.binding = .ok q ∧ Comes 3 rest tail q ∧ Wrote (w.lead.map .leaf ++ [tree]) p q := by
  obtain ⟨keyword, after, ts, colon, rest', he, _, hargs, hc, rfl, rfl⟩ := binding?_eq_some hr
  cases he
  obtain ⟨a, ha, ca, wa⟩ := bump_ok (h.openNode .binding)
  obtain ⟨b, hb, cb, wb⟩ := arguments_ok ca (by decide) hargs
  obtain ⟨c, hc, cc, wc⟩ := expect_ok cb (by decide) hc
  obtain ⟨d, hd, cd, wd⟩ := block_ok cc
  have hs := (((wa.trans wb).trans wc).trans wd).node h.front_isTrivia
  rw [h.trivia] at hs
  exact ⟨d.closeNode, bind_ok.mpr ⟨a, ha, bind_ok.mpr ⟨b, hb, bind_ok.mpr ⟨c, hc,
    bind_ok.mpr ⟨d, hd, rfl⟩⟩⟩⟩, cd.closeNode, hs⟩

/-- What a round does to the run of dropped tokens: a token that is dropped belongs to it, a newline, a
separator or a construct ends it. -/
def note (p : Parser) : Tree → Parser
  | .leaf token =>
    if token.kind = .newline ∨ token.kind = .separator then p.reportDropped else p.addDropped token
  | .node _ _ => p.reportDropped

theorem Faces.reportDropped (h : Faces n row tail p) : Faces n row tail p.reportDropped := by
  unfold Parser.reportDropped
  split
  · exact h
  · exact ⟨h.trivia, h.rest, h.patience, h.tail_isTrivia⟩

theorem Faces.note (h : Faces n row tail p) (tree : Tree) : Faces n row tail (p.note tree) := by
  unfold Parser.note
  split
  · split
    · exact h.reportDropped
    · exact ⟨h.trivia, h.rest, h.patience, h.tail_isTrivia⟩
  · exact h.reportDropped

theorem Wrote.reportDropped (h : Wrote ts p q) : Wrote ts p.reportDropped q.reportDropped := by
  unfold Parser.reportDropped
  rw [h.dropped]
  cases p.dropped with
  | none => exact h
  | some span => exact ⟨h.events, h.above, rfl, by rw [h.reports]⟩

theorem Wrote.note (h : Wrote ts p q) (tree : Tree) : Wrote ts (p.note tree) (q.note tree) := by
  cases tree with
  | leaf token =>
    by_cases ht : token.kind = .newline ∨ token.kind = .separator
    · simpa only [Parser.note, if_pos ht] using h.reportDropped
    · simp only [Parser.note, if_neg ht]
      exact ⟨h.events, h.above, by simp [addDropped, h.dropped], h.reports⟩
  | node kind children => exact h.reportDropped

/-- A round that takes a tree: it ends well before the rest of the row. -/
def Takes (x : Except Fault Parser) (p : Parser) (lead : List Token) (tree : Tree)
    (rest : List Spaced) (tail : List Token) : Prop :=
  ∃ q, x = .ok q ∧ Comes 3 rest tail q ∧ Wrote (lead.map .leaf ++ [tree]) (p.note tree) q

theorem Takes.of_look {x : Except Fault Parser} {lead : List Token} (hw : Wrote [] p q)
    (h : Takes x q lead tree rest tail) : Takes x p lead tree rest tail := by
  obtain ⟨r, hr, cr, wr⟩ := h
  exact ⟨r, hr, cr, (hw.note tree).trans wr⟩

theorem drop_takes (h : Comes n (w :: row) tail p) (hn : n < fullPatience) :
    Takes p.drop p w.lead (.leaf w.token) row tail := by
  obtain ⟨a, hl, fa, wa⟩ := look_ok h hn
  obtain ⟨b, hb, cb, wb⟩ := bump_ok (fa.note (.leaf w.token))
  have hr : a.rest = w.token :: (tokens row ++ tail) := fa.rest
  refine .of_look wa ⟨b, bind_ok.mpr ⟨a, hl, ?_⟩, cb.mono (by omega), by simpa [leaves] using wb⟩
  rw [note] at hb
  rw [hr]
  change (if _ then _ else _) = _
  split <;> simp_all

theorem bindingOrDropped_takes (h : Comes n (w :: row) tail p) (hn : n + 1 < fullPatience) :
    Takes p.bindingOrDropped p w.lead ((binding? (w.bare :: row)).getD (.leaf w.token, row)).1
      ((binding? (w.bare :: row)).getD (.leaf w.token, row)).2 tail := by
  obtain ⟨a, hl, fa, wa⟩ := look_ok h (by omega)
  have hahead := binding_body w row fa.tail_isTrivia
  refine .of_look wa ?_
  cases hr : binding? (w.bare :: row) with
  | none =>
    rw [hr] at hahead
    obtain ⟨b, hb, cb, wb⟩ := drop_takes fa.comes hn
    refine ⟨b, bind_ok.mpr ⟨a, hl, ?_⟩, cb, wb⟩
    rw [fa.rest, hahead]
    exact hb
  | some result =>
    rw [hr] at hahead
    obtain ⟨tree, rest⟩ := result
    obtain ⟨b, hb, cb, wb⟩ := binding_ok fa.reportDropped hr
    obtain ⟨_, _, _, _, _, _, _, _, _, _, rfl⟩ := binding?_eq_some hr
    refine ⟨b, bind_ok.mpr ⟨a, hl, ?_⟩, cb, wb⟩
    rw [fa.rest, hahead]
    exact hb

/-- A command is foreseen where one can be read and no binding can. -/
theorem commandOrOther_takes (h : Comes n (w :: row) tail p) (hn : n + 3 < fullPatience) :
    let result := ((binding? (w.bare :: row)).or (command? (w.bare :: row))).getD (.leaf w.token, row)
    Takes p.commandOrOther p w.lead result.1 result.2 tail := by
  obtain ⟨a, hl, fa, wa⟩ := look_ok h (by omega)
  have hnext : a.next? = some w.kind := fa.next?
  by_cases hend : Ahead.isIn .ruleEnd (some w.kind) = true
  · have hc : command? (w.bare :: row) = none := command?_eq_none hend
    obtain ⟨b, hb, cb, wb⟩ := bindingOrDropped_takes fa.comes (by omega)
    rw [hc, Option.or_none]
    refine .of_look wa ⟨b, bind_ok.mpr ⟨a, hl, ?_⟩, cb, wb⟩
    rw [hnext, if_pos (.inr hend)]
    exact hb
  · obtain ⟨b, hm, fb, wb⟩ := look_ok fa.comes (by omega)
    have hbind := binding_body w row fb.tail_isTrivia
    have hcolon := colonOnLine_body row fb.tail_isTrivia (by simpa using hend)
    have hother := bindingOrDropped_takes fb.comes (by omega)
    have hrun : p.commandOrOther =
        if !Ahead.binding b.rest && Ahead.colonOnLine b.rest then b.reportDropped.command
        else b.bindingOrDropped := by
      rw [commandOrOther, hl]
      change (if _ then _ else a.look >>= _) = _
      rw [hnext, if_neg (by simpa using hend), hm]
      rfl
    rw [hrun, fb.rest, hbind, hcolon]
    refine .of_look (wa.trans wb) ?_
    cases hb : binding? (w.bare :: row) with
    | some result =>
      rw [hb] at hother
      exact hother
    | none =>
      cases hc : command? (w.bare :: row) with
      | none =>
        rw [hb] at hother
        exact hother
      | some result =>
        obtain ⟨tree, rest⟩ := result
        obtain ⟨c, hd, cc, wc⟩ := command_ok fb.reportDropped (by omega) hc
        obtain ⟨_, _, _, _, _, _, _, _, rfl⟩ := command?_eq_some hc
        exact ⟨c, hd, cc, wc⟩

/-- A round of the parser takes what the reading has next. -/
theorem item_takes (h : Comes n (w :: row) tail p) (hn : n + 4 < fullPatience) :
    Takes p.item p w.lead (next p.aboveSeparator w row).1 (next p.aboveSeparator w row).2 tail := by
  obtain ⟨a, hl, fa, wa⟩ := look_ok h (by omega)
  have habove : a.aboveSeparator = p.aboveSeparator := by
    simpa [hasSeparator] using wa.above
  have hahead := header_body p.aboveSeparator w row fa.tail_isTrivia
  have hother := commandOrOther_takes fa.comes (by omega)
  have hrun : p.item =
      if Ahead.header p.aboveSeparator a.rest then a.reportDropped.header else a.commandOrOther := by
    rw [item, hl, ← habove]
    rfl
  rw [hrun, fa.rest, hahead]
  refine .of_look wa ?_
  unfold next construct?
  cases hr : header? p.aboveSeparator (w.bare :: row) with
  | none => exact hother
  | some result =>
    obtain ⟨tree, rest⟩ := result
    obtain ⟨b, hb, cb, wb⟩ := header_ok fa.reportDropped (by omega) hr
    obtain ⟨_, _, _, _, _, _, _, rfl⟩ := header?_eq_some hr
    exact ⟨b, hb, cb, wb⟩

theorem items_of_look (hl : p.look = .ok q) :
    p.items = if q.next? = none then .ok q else q.item >>= items := by
  rw [items]
  split
  · simp_all
  · rename_i hq
    cases hl.symm.trans hq
    split
    · rfl
    · split
      · rename_i hi
        rw [hi]
        rfl
      · rename_i hi
        rw [hi]
        rfl

/-- The run of dropped tokens after rounds. -/
def noteAll (p : Parser) (rounds : List Round) : Parser :=
  rounds.foldl (fun p round => p.note round.tree) p

theorem Wrote.noteAll (h : Wrote ts p q) (rounds : List Round) :
    Wrote ts (p.noteAll rounds) (q.noteAll rounds) := by
  induction rounds generalizing p q with
  | nil => exact h
  | cons round rounds ih => exact ih (h.note round.tree)

@[simp] theorem reportDropped_aboveSeparator (p : Parser) :
    p.reportDropped.aboveSeparator = p.aboveSeparator := by
  unfold Parser.reportDropped
  split <;> rfl

@[simp] theorem reportDropped_events (p : Parser) : p.reportDropped.events = p.events := by
  unfold Parser.reportDropped
  split <;> rfl

@[simp] theorem note_aboveSeparator (p : Parser) (tree : Tree) :
    (p.note tree).aboveSeparator = p.aboveSeparator := by
  fun_cases note p tree <;> simp [addDropped]

@[simp] theorem note_events (p : Parser) (tree : Tree) : (p.note tree).events = p.events := by
  fun_cases note p tree <;> simp [addDropped]

@[simp] theorem noteAll_events (p : Parser) (rounds : List Round) :
    (p.noteAll rounds).events = p.events := by
  induction rounds generalizing p with
  | nil => rfl
  | cons round rounds ih =>
    change ((p.note round.tree).noteAll rounds).events = p.events
    rw [ih, note_events]

/-- The rounds of the parser are those of the reading. -/
theorem items_ok (h : Comes n row tail p) (hn : n ≤ 3) :
    ∃ q, p.items = .ok q ∧ Faces 4 [] tail q ∧
      Wrote (Reading.file p.aboveSeparator row) (p.noteAll (rounds p.aboveSeparator row)) q := by
  have hfull : n + 5 < fullPatience := Nat.lt_of_le_of_lt (Nat.add_le_add_right hn 5) (by decide)
  obtain ⟨a, hl, fa, wa⟩ := look_ok h (by omega)
  rw [items_of_look hl, fa.next?]
  generalize he : p.aboveSeparator = above
  fun_induction rounds above row generalizing n p a with
  | case1 above =>
    rw [file_nil]
    exact ⟨a, rfl, fa.mono (by omega), wa⟩
  | case2 above w row ih =>
    obtain ⟨b, hb, cb, wb⟩ := item_takes fa.comes (by omega)
    have habove : a.aboveSeparator = above := by
      simpa [hasSeparator, he] using wa.above
    rw [habove] at cb wb
    have hbabove := wb.above
    rw [note_aboveSeparator, habove, Tree.leavesAll_append, hasSeparator_append,
      Tree.leavesAll_map_leaf, hasSeparator_trivia w.lead_isTrivia] at hbabove
    obtain ⟨c, hl', fc, wc⟩ := look_ok cb (by decide)
    obtain ⟨d, hd, fd, wd⟩ := ih cb (Nat.le_refl 3) (by decide) c hl' fc wc (by simpa using hbabove)
    refine ⟨d, bind_ok.mpr ⟨b, hb, ?_⟩, fd, ?_⟩
    · rw [items_of_look hl', fc.next?]
      exact hd
    · rw [file_cons]
      have hs := (((wa.note _).trans wb).noteAll _).trans wd
      change Wrote _ ((p.note _).noteAll _) d
      simpa using hs

/-- A parser over a row before the first token, with the node of the file open. -/
def ofRow (row : List Spaced) (tail : List Token) : Parser :=
  (ofTokens (tokens row ++ tail)).openNode .file

theorem comes_ofRow (row : List Spaced) (ht : ∀ t ∈ tail, t.isTrivia = true) :
    Comes 0 row tail (ofRow row tail) :=
  comes_of_rest ht rfl rfl (Nat.le_refl _)

/-- The parser writes one node over the trees of the reading. -/
theorem file_ok (row : List Spaced) (ht : ∀ t ∈ tail, t.isTrivia = true) :
    let above := hasSeparator (tokens row ++ tail)
    ∃ q, (ofTokens (tokens row ++ tail)).file = .ok q ∧
      q.events = (Tree.node .file (Reading.file above row ++ tail.map .leaf)).events.reverse ∧
      q.reports = ((ofRow row tail).noteAll (rounds above row)).reportDropped.reports := by
  obtain ⟨a, ha, fa, wa⟩ := items_ok (comes_ofRow row ht) (by omega)
  have wr := wa.reportDropped
  refine ⟨a.reportDropped.writeTrivia.closeNode.writeTrivia, bind_ok.mpr ⟨a, ha, rfl⟩, ?_, wr.reports⟩
  have hevents := wr.events
  have htrivia : a.reportDropped.trivia = tail := fa.reportDropped.trivia
  simp only [reportDropped_events, noteAll_events] at hevents
  simp [writeTrivia, closeNode, hevents, htrivia, ofRow, openNode, ofTokens, hasSeparator]

end VoiceScript.Parser
