import VoiceScript.Parser.State
import VoiceScript.Proofs.Lookahead

namespace VoiceScript

namespace Tree

mutual

/-- The events that tell of a tree. -/
def events : Tree → List Event
  | leaf token => [.token token]
  | node kind children => .start kind :: eventsAll children ++ [.finish]

/-- The events that tell of a row of trees. -/
def eventsAll : List Tree → List Event
  | [] => []
  | tree :: trees => tree.events ++ eventsAll trees

end

@[simp] theorem eventsAll_nil : eventsAll [] = [] := rfl

@[simp] theorem eventsAll_cons (tree : Tree) (trees : List Tree) :
    eventsAll (tree :: trees) = tree.events ++ eventsAll trees := rfl

@[simp] theorem events_leaf (token : Token) : (leaf token).events = [.token token] := rfl

@[simp] theorem events_node (kind : NodeKind) (children : List Tree) :
    (node kind children).events = .start kind :: eventsAll children ++ [.finish] := rfl

@[simp] theorem eventsAll_append (as bs : List Tree) :
    eventsAll (as ++ bs) = eventsAll as ++ eventsAll bs := by
  induction as with
  | nil => rfl
  | cons tree as ih => simp [ih]

@[simp] theorem eventsAll_map_leaf (tokens : List Token) :
    eventsAll (tokens.map leaf) = tokens.map .token := by
  induction tokens with
  | nil => rfl
  | cons token tokens ih => simp [ih]

mutual

theorem build_events (tree : Tree) (older : List Event) (row : List Tree) (rows : List (List Tree)) :
    build (tree.events.reverse ++ older) (row :: rows) = build older ((tree :: row) :: rows) := by
  match tree with
  | leaf token => rfl
  | node kind children =>
    have h := build_eventsAll children (.start kind :: older) [] (row :: rows)
    simpa [build] using h

theorem build_eventsAll (trees : List Tree) (older : List Event) (row : List Tree)
    (rows : List (List Tree)) :
    build ((eventsAll trees).reverse ++ older) (row :: rows) = build older ((trees ++ row) :: rows) := by
  match trees with
  | [] => rfl
  | tree :: trees =>
    rw [eventsAll_cons, List.reverse_append, List.append_assoc,
      build_eventsAll trees (tree.events.reverse ++ older) row rows,
      build_events tree older (trees ++ row) rows, List.cons_append]

end

/-- Events of one node build that node. -/
theorem ofEvents?_events (kind : NodeKind) (children : List Tree) :
    ofEvents? (node kind children).events.reverse = some (node kind children) := by
  have h := build_events (node kind children) [] [] []
  rw [List.append_nil] at h
  rw [ofEvents?, h]
  rfl

end Tree

namespace Parser

open Spaced Reading

/-- The parser has looked: the trivia before the next token is set aside. It looked at most `spent`
times since it last took a token. -/
structure Faces (spent : Nat) (row : List Spaced) (tail : List Token) (p : Parser) : Prop where
  trivia : p.trivia = front row tail
  rest : p.rest = body row tail
  patience : fullPatience ≤ p.patience + spent
  tail_isTrivia : ∀ t ∈ tail, t.isTrivia = true

/-- The parser faces the row once it looks. -/
def Comes (spent : Nat) (row : List Spaced) (tail : List Token) (p : Parser) : Prop :=
  Faces spent row tail p.skipTrivia

/-- The parser `q` is `p` after it wrote trees. -/
structure Wrote (trees : List Tree) (p q : Parser) : Prop where
  events : q.events = (Tree.eventsAll trees).reverse ++ p.events
  above : q.aboveSeparator = (p.aboveSeparator && !hasSeparator (Tree.leavesAll trees))
  dropped : q.dropped = p.dropped
  reports : q.reports = p.reports

variable {n : Nat} {w : Spaced} {row : List Spaced} {tail : List Token} {ts us : List Tree}
  {kind : TokenKind} {stop : Option TokenKind → Bool} {p q r : Parser}

theorem Wrote.refl (p : Parser) : Wrote [] p p :=
  ⟨rfl, by simp [hasSeparator], rfl, rfl⟩

theorem Wrote.trans (h : Wrote ts p q) (k : Wrote us q r) : Wrote (ts ++ us) p r where
  events := by rw [k.events, h.events]; simp
  above := by
    rw [k.above, h.above, Tree.leavesAll_append, hasSeparator_append, Bool.not_or, Bool.and_assoc]
  dropped := k.dropped.trans h.dropped
  reports := k.reports.trans h.reports

theorem Faces.front_isTrivia (h : Faces n row tail p) : ∀ t ∈ p.trivia, t.isTrivia = true := by
  rw [h.trivia]
  cases row with
  | nil => exact h.tail_isTrivia
  | cons w row => exact w.lead_isTrivia

/-- A second look sees the same. -/
theorem Faces.comes (h : Faces n row tail p) : Comes n row tail p where
  trivia := by
    have hb : (body row tail).takeWhile Token.isTrivia = [] := by
      cases row with
      | nil => rfl
      | cons w row => simp [body, w.token_isTrivia]
    rw [skipTrivia, h.rest, hb, List.append_nil, h.trivia]
  rest := by rw [skipTrivia, h.rest, skipTrivia_body]
  patience := h.patience
  tail_isTrivia := h.tail_isTrivia

/-- The parser comes before the tokens it has, if no trivia is set aside. -/
theorem comes_of_rest (ht : ∀ t ∈ tail, t.isTrivia = true) (trivia : p.trivia = [])
    (rest : p.rest = tokens row ++ tail) (patience : fullPatience ≤ p.patience + n) :
    Comes n row tail p where
  trivia := by rw [skipTrivia, trivia, rest, takeWhile_tokens ht, List.nil_append]
  rest := by rw [skipTrivia, rest, skipTrivia_tokens ht]
  patience := patience
  tail_isTrivia := ht

theorem Faces.mono {m : Nat} (h : Faces n row tail p) (hm : n ≤ m) : Faces m row tail p :=
  ⟨h.trivia, h.rest, Nat.le_trans h.patience (Nat.add_le_add_left hm _), h.tail_isTrivia⟩

theorem Comes.mono {m : Nat} (h : Comes n row tail p) (hm : n ≤ m) : Comes m row tail p :=
  Faces.mono h hm

theorem Faces.next? (h : Faces n row tail p) : p.next? = row.head?.map Spaced.kind := by
  rw [Parser.next?, h.rest, first?_body]

theorem look_ok (h : Comes n row tail p) (hn : n < fullPatience) :
    ∃ q, p.look = .ok q ∧ Faces (n + 1) row tail q ∧ Wrote [] p q := by
  have hp : fullPatience ≤ p.patience + n := h.patience
  have hw := Wrote.refl p
  refine ⟨_, if_neg (by omega), ⟨h.trivia, h.rest, ?_, h.tail_isTrivia⟩,
    ⟨hw.events, hw.above, hw.dropped, hw.reports⟩⟩
  change fullPatience ≤ p.patience - 1 + (n + 1)
  omega

theorem bump_ok (h : Faces n (w :: row) tail p) :
    ∃ q, p.bump = .ok q ∧ Comes 0 row tail q ∧ Wrote (leaves [w]) p q := by
  have hr : p.rest = w.token :: (tokens row ++ tail) := h.rest
  unfold bump
  rw [hr]
  refine ⟨_, rfl, comes_of_rest h.tail_isTrivia rfl rfl (Nat.le_refl _), ?_, ?_, rfl, rfl⟩
  · simp [leaves, writeTrivia, h.trivia, front]
  · rw [leavesAll_leaves, tokens_cons, hasSeparator_append, hasSeparator_trivia w.lead_isTrivia]
    simp [hasSeparator, bne]

theorem Faces.openNode (h : Faces n (w :: row) tail p) (kind : NodeKind) :
    Faces n (w.bare :: row) tail (p.openNode kind) :=
  ⟨rfl, h.rest, h.patience, h.tail_isTrivia⟩

theorem Comes.closeNode (h : Comes n row tail p) : Comes n row tail p.closeNode :=
  ⟨h.trivia, h.rest, h.patience, h.tail_isTrivia⟩

/-- A node holds what is written between its start and its end. -/
theorem Wrote.node {kind : NodeKind} (h : Wrote ts (p.openNode kind) q)
    (ht : ∀ t ∈ p.trivia, t.isTrivia = true) :
    Wrote (p.trivia.map .leaf ++ [.node kind ts]) p q.closeNode where
  events := by
    simp [closeNode, h.events, openNode, writeTrivia]
  above := by
    have ha : q.aboveSeparator = (p.aboveSeparator && !hasSeparator (Tree.leavesAll ts)) := h.above
    simp [closeNode, ha, hasSeparator_append, hasSeparator_trivia ht]
  dropped := h.dropped
  reports := h.reports

theorem eat_ok (kind : TokenKind) (h : Comes n row tail p) (hn : n < fullPatience) :
    ∃ q, p.eat kind = .ok q ∧ Comes (n + 1) (Reading.eat kind row).2 tail q ∧
      Wrote (leaves (Reading.eat kind row).1) p q := by
  obtain ⟨a, hl, ha, wa⟩ := look_ok h hn
  cases row with
  | nil =>
    refine ⟨a, bind_ok.mpr ⟨a, hl, ?_⟩, ha.comes, wa⟩
    rw [ha.next?]
    rfl
  | cons w row =>
    by_cases hw : w.kind = kind
    · obtain ⟨b, hb, cb, wb⟩ := bump_ok ha
      refine ⟨b, bind_ok.mpr ⟨a, hl, ?_⟩, ?_, ?_⟩
      · simpa [ha.next?, hw] using hb
      · simpa [Reading.eat, hw] using cb.mono (Nat.zero_le (n + 1))
      · simpa [Reading.eat, hw] using wa.trans wb
    · refine ⟨a, bind_ok.mpr ⟨a, hl, ?_⟩, ?_, ?_⟩
      · rw [ha.next?, if_neg (by simpa using hw)]
        rfl
      · simpa [Reading.eat, hw] using ha.comes
      · simpa [Reading.eat, hw] using wa

theorem expect_ok (h : Comes n (w :: row) tail p) (hn : n < fullPatience) (hw : w.kind = kind) :
    ∃ q, p.expect kind = .ok q ∧ Comes 0 row tail q ∧ Wrote (leaves [w]) p q := by
  obtain ⟨a, hl, ha, wa⟩ := look_ok h hn
  obtain ⟨b, hb, cb, wb⟩ := bump_ok ha
  refine ⟨b, bind_ok.mpr ⟨a, hl, ?_⟩, cb, wa.trans wb⟩
  simpa [ha.next?, hw] using hb

theorem bumpUntil_of_look (hl : p.look = .ok q) :
    p.bumpUntil stop = if stop q.next? then .ok q else q.bump >>= bumpUntil stop := by
  rw [bumpUntil]
  split
  · simp_all
  · rename_i hq
    cases hl.symm.trans hq
    split
    · rfl
    · split
      · rename_i hb
        rw [hb]
        rfl
      · rename_i hb
        rw [hb]
        rfl

theorem bumpUntil_stop (h : Comes n row tail p) (hn : n < fullPatience)
    (hs : stop (row.head?.map Spaced.kind) = true) :
    ∃ q, p.bumpUntil stop = .ok q ∧ Faces (n + 1) row tail q ∧ Wrote [] p q := by
  obtain ⟨a, hl, ha, wa⟩ := look_ok h hn
  refine ⟨a, ?_, ha, wa⟩
  rw [bumpUntil_of_look hl, ha.next?, if_pos hs]

theorem bumpUntil_step (h : Comes n (w :: row) tail p) (hn : n < fullPatience)
    (hw : takes stop w = true) :
    ∃ q, p.bumpUntil stop = q.bumpUntil stop ∧ Comes 0 row tail q ∧ Wrote (leaves [w]) p q := by
  obtain ⟨a, hl, ha, wa⟩ := look_ok h hn
  obtain ⟨b, hb, cb, wb⟩ := bump_ok ha
  refine ⟨b, ?_, cb, wa.trans wb⟩
  have hstop : ¬ stop a.next? = true := by
    simpa [ha.next?, takes] using hw
  rw [bumpUntil_of_look hl, if_neg hstop, hb]
  rfl

/-- Tokens are taken up to one at which to stop. There must be one, unless the end is a reason to
stop. -/
theorem bumpUntil_ok (stop : Option TokenKind → Bool) (h : Comes n row tail p)
    (hn : n < fullPatience)
    (hs : stop none = true ∨ row.dropWhile (takes stop) ≠ []) :
    ∃ q, p.bumpUntil stop = .ok q ∧ Faces (n + 1) (row.dropWhile (takes stop)) tail q ∧
      Wrote (leaves (row.takeWhile (takes stop))) p q := by
  induction row generalizing n p with
  | nil => exact bumpUntil_stop h hn (by simpa using hs)
  | cons w row ih =>
    by_cases ht : takes stop w = true
    · obtain ⟨a, ha, ca, wa⟩ := bumpUntil_step h hn ht
      rw [List.dropWhile_cons_of_pos ht] at hs
      obtain ⟨b, hb, fb, wb⟩ := ih ca (by decide) hs
      have hw := wa.trans wb
      rw [← leaves_append] at hw
      rw [List.dropWhile_cons_of_pos ht, List.takeWhile_cons_of_pos ht, ha]
      exact ⟨b, hb, fb.mono (by omega), hw⟩
    · rw [List.dropWhile_cons_of_neg ht, List.takeWhile_cons_of_neg ht]
      exact bumpUntil_stop h hn (by simpa [takes] using ht)

/-- After tokens were taken the parser has looked only once. -/
theorem bumpUntil_cons_ok (h : Comes n (w :: row) tail p) (hn : n < fullPatience)
    (hw : takes stop w = true) (hs : stop none = true ∨ row.dropWhile (takes stop) ≠ []) :
    ∃ q, p.bumpUntil stop = .ok q ∧ Faces 1 (row.dropWhile (takes stop)) tail q ∧
      Wrote (leaves (w :: row.takeWhile (takes stop))) p q := by
  obtain ⟨a, ha, ca, wa⟩ := bumpUntil_step h hn hw
  obtain ⟨b, hb, fb, wb⟩ := bumpUntil_ok stop ca (by decide) hs
  have hw := wa.trans wb
  rw [← leaves_append] at hw
  exact ⟨b, ha.trans hb, fb, hw⟩

end Parser

end VoiceScript
