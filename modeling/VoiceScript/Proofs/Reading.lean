import VoiceScript.Proofs.Spaced

namespace VoiceScript

namespace Reading

open Spaced

/-- Whether a token is taken where the parser takes tokens up to one at which to stop. -/
def takes (stop : Option TokenKind → Bool) (w : Spaced) : Bool :=
  !stop (some w.kind)

/-- A node that starts at a token, after the trivia before it. -/
def opened (kind : NodeKind) (w : Spaced) (children : List Tree) : List Tree :=
  w.lead.map .leaf ++ [.node kind (.leaf w.token :: children)]

/-- The next token if it is of a kind, and the rest of the row. -/
def eat (kind : TokenKind) : List Spaced → List Spaced × List Spaced
  | [] => ([], [])
  | w :: row => if w.kind = kind then ([w], row) else ([], w :: row)

/-- The separator that ends the context headers, if it comes, with its newline. -/
def separatorLine : List Spaced → List Spaced × List Spaced
  | [] => ([], [])
  | w :: row =>
    if w.kind = .separator then (w :: (eat .newline row).1, (eat .newline row).2) else ([], w :: row)

/-- A statement from a token to the end of its line. -/
def statement (w : Spaced) (row : List Spaced) : List Tree :=
  opened .statement w (leaves (row.takeWhile (takes Ahead.isLineEnd)))

/-- Lines up to one that starts another construct. The newline after a statement is read as an empty
line. -/
def blockLines : List Spaced → List Tree × List Spaced
  | [] => ([], [])
  | w :: row =>
    if Ahead.isIn .topLevelFirst (some w.kind) then ([], w :: row)
    else if w.kind = .newline then
      let lines := blockLines row
      (leaves [w] ++ lines.1, lines.2)
    else
      let lines := blockLines (row.dropWhile (takes Ahead.isLineEnd))
      (statement w row ++ lines.1, lines.2)
termination_by row => row.length
decreasing_by
  · simp
  · have := (List.dropWhile_sublist (takes Ahead.isLineEnd) (l := row)).length_le
    simp only [List.length_cons]
    omega

/-- What follows a colon. -/
def block : List Spaced → List Tree × List Spaced
  | [] => ([], [])
  | w :: row =>
    if w.kind = .newline then blockLines (w :: row)
    else
      let lines := blockLines (row.dropWhile (takes Ahead.isLineEnd))
      (statement w row ++ lines.1, lines.2)

def isModifier : Spaced → Bool :=
  takes fun kind => !Ahead.isIn .modifiers kind

/-- What a context header has after its colon: the rest of the line, and what ends it. -/
def headerLine (row : List Spaced) : List Spaced × List Spaced :=
  let newline := eat .newline (row.dropWhile (takes Ahead.isLineEnd))
  let separator := separatorLine newline.2
  (row.takeWhile (takes Ahead.isLineEnd) ++ newline.1 ++ separator.1, separator.2)

/-- A context header: modifiers, a key and a colon, and the line after them. -/
def header? (above : Bool) (row : List Spaced) : Option (Tree × List Spaced) :=
  match row.dropWhile isModifier with
  | key :: colon :: after =>
    if Ahead.isKey above key.kind && colon.kind == .colon then
      let taken := row.takeWhile isModifier ++ key :: colon :: (headerLine after).1
      some (.node .header (leaves taken), (headerLine after).2)
    else none
  | _ => none

/-- The arguments of a binding, if there are any. There is no reading if they have no end. -/
def arguments? : List Spaced → Option (List Tree × List Spaced)
  | [] => some ([], [])
  | w :: row =>
    if w.kind = .parenOpen then
      match row.dropWhile (takes (· == some .parenClose)) with
      | [] => none
      | close :: rest =>
        let inner := row.takeWhile (takes (· == some .parenClose))
        some (opened .bindingArgs w (leaves (inner ++ [close])), rest)
    else some ([], w :: row)

/-- A binding: a keyword, arguments if there are any, a colon and a block. -/
def binding? : List Spaced → Option (Tree × List Spaced)
  | [] => none
  | keyword :: row =>
    if Ahead.isIn .bindingKeywords (some keyword.kind) then
      match arguments? row with
      | some (arguments, colon :: after) =>
        if colon.kind = .colon then
          let children := leaves [keyword] ++ arguments ++ leaves [colon] ++ (block after).1
          some (.node .binding children, (block after).2)
        else none
      | _ => none
    else none

/-- A command: a rule of at least one token, a colon and a block. -/
def command? (row : List Spaced) : Option (Tree × List Spaced) :=
  match row.takeWhile (takes (Ahead.isIn .ruleEnd)), row.dropWhile (takes (Ahead.isIn .ruleEnd)) with
  | first :: rule, colon :: after =>
    if colon.kind = .colon then
      let children := .node .rule (leaves (first :: rule)) :: leaves [colon] ++ (block after).1
      some (.node .command children, (block after).2)
    else none
  | _, _ => none

/-- The construct that starts at a token, if one does. -/
def construct? (above : Bool) (row : List Spaced) : Option (Tree × List Spaced) :=
  (header? above row).or ((binding? row).or (command? row))

/-- What one round of the parser makes of a row: a construct, or else its first token alone. -/
def next (above : Bool) (w : Spaced) (row : List Spaced) : Tree × List Spaced :=
  (construct? above (w.bare :: row)).getD (.leaf w.token, row)

/-- Trees over a front part of a row, and the rest of the row. -/
def Splits (row : List Spaced) (trees : List Tree) (rest : List Spaced) : Prop :=
  ∃ taken, row = taken ++ rest ∧ Tree.leavesAll trees = tokens taken

/-- A tree over a front part of a row that has at least one token, and the rest of the row. -/
def SplitsFirst (row : List Spaced) (tree : Tree) (rest : List Spaced) : Prop :=
  ∃ first taken, row = first :: taken ++ rest ∧ tree.leaves = tokens (first :: taken)

variable {above : Bool} {w : Spaced} {row rest mid : List Spaced} {ts us : List Tree} {tree : Tree}

@[simp] theorem leavesAll_leaves (row : List Spaced) : Tree.leavesAll (leaves row) = tokens row :=
  Tree.leavesAll_map_leaf _

@[simp] theorem leavesAll_opened (kind : NodeKind) (w : Spaced) (children : List Tree) :
    Tree.leavesAll (opened kind w children) = w.lead ++ w.token :: Tree.leavesAll children := by
  simp [opened]

theorem Splits.refl (row : List Spaced) : Splits row [] row :=
  ⟨[], rfl, rfl⟩

theorem Splits.trans (h : Splits row ts mid) (k : Splits mid us rest) :
    Splits row (ts ++ us) rest := by
  obtain ⟨as, rfl, ha⟩ := h
  obtain ⟨bs, rfl, hb⟩ := k
  exact ⟨as ++ bs, by simp, by simp [ha, hb]⟩

theorem splits_leaves (row rest : List Spaced) : Splits (row ++ rest) (leaves row) rest :=
  ⟨row, rfl, leavesAll_leaves row⟩

theorem Splits.length_le (h : Splits row ts rest) : rest.length ≤ row.length := by
  obtain ⟨taken, rfl, _⟩ := h
  simp

theorem splits_statement (w : Spaced) (row : List Spaced) :
    Splits (w :: row) (statement w row) (row.dropWhile (takes Ahead.isLineEnd)) :=
  ⟨w :: row.takeWhile (takes Ahead.isLineEnd), by simp, by simp [statement]⟩

theorem splits_blockLines (row : List Spaced) :
    Splits row (blockLines row).1 (blockLines row).2 := by
  fun_induction blockLines row with
  | case1 => exact .refl []
  | case2 w row => exact .refl (w :: row)
  | case3 w row _ _ lines ih => exact (splits_leaves [w] row).trans ih
  | case4 w row _ _ lines ih => exact (splits_statement w row).trans ih

theorem splits_block (row : List Spaced) : Splits row (block row).1 (block row).2 := by
  fun_cases block row with
  | case1 => exact .refl []
  | case2 w row => exact splits_blockLines (w :: row)
  | case3 w row => exact (splits_statement w row).trans (splits_blockLines _)

theorem eat_append (kind : TokenKind) (row : List Spaced) :
    (eat kind row).1 ++ (eat kind row).2 = row := by
  fun_cases eat kind row <;> simp

theorem separatorLine_append (row : List Spaced) :
    (separatorLine row).1 ++ (separatorLine row).2 = row := by
  fun_cases separatorLine row with
  | case1 => rfl
  | case2 w row => simp [eat_append]
  | case3 w row => rfl

theorem headerLine_append (row : List Spaced) : (headerLine row).1 ++ (headerLine row).2 = row := by
  simp only [headerLine, List.append_assoc, separatorLine_append, eat_append,
    List.takeWhile_append_dropWhile]

theorem header?_eq_some (h : header? above row = some (tree, rest)) :
    ∃ key colon after, row.dropWhile isModifier = key :: colon :: after ∧
      Ahead.isKey above key.kind = true ∧ colon.kind = .colon ∧ rest = (headerLine after).2 ∧
      tree = .node .header
        (leaves (row.takeWhile isModifier ++ key :: colon :: (headerLine after).1)) := by
  unfold header? at h
  split at h
  · rename_i key colon after hd
    split at h
    · rename_i hk
      simp only [Bool.and_eq_true, beq_iff_eq] at hk
      cases h
      exact ⟨key, colon, after, hd, hk.1, hk.2, rfl, rfl⟩
    · cases h
  · cases h

theorem arguments?_eq_some (h : arguments? row = some (ts, rest)) :
    (row.head?.map kind ≠ some .parenOpen ∧ ts = [] ∧ rest = row) ∨
    ∃ w after close, row = w :: after ∧ w.kind = .parenOpen ∧
      after.dropWhile (takes (· == some .parenClose)) = close :: rest ∧
      ts = opened .bindingArgs w
        (leaves (after.takeWhile (takes (· == some .parenClose)) ++ [close])) := by
  unfold arguments? at h
  split at h
  · cases h
    exact .inl ⟨by simp, rfl, rfl⟩
  · rename_i w after
    split at h
    · rename_i hw
      split at h
      · cases h
      · rename_i close rest' hd
        cases h
        exact .inr ⟨w, after, close, rfl, hw, hd, rfl⟩
    · rename_i hw
      cases h
      exact .inl ⟨by simpa using hw, rfl, rfl⟩

theorem binding?_eq_some (h : binding? row = some (tree, rest)) :
    ∃ keyword after arguments colon rest', row = keyword :: after ∧
      Ahead.isIn .bindingKeywords (some keyword.kind) = true ∧
      arguments? after = some (arguments, colon :: rest') ∧ colon.kind = .colon ∧
      rest = (block rest').2 ∧
      tree = .node .binding
        (leaves [keyword] ++ arguments ++ leaves [colon] ++ (block rest').1) := by
  unfold binding? at h
  split at h
  · cases h
  · rename_i keyword after
    split at h
    · rename_i hk
      split at h
      · rename_i arguments colon rest' ha
        split at h
        · rename_i hc
          cases h
          exact ⟨keyword, after, arguments, colon, rest', rfl, hk, ha, hc, rfl, rfl⟩
        · cases h
      · cases h
    · cases h

theorem command?_eq_some (h : command? row = some (tree, rest)) :
    ∃ first rule colon after, row.takeWhile (takes (Ahead.isIn .ruleEnd)) = first :: rule ∧
      row.dropWhile (takes (Ahead.isIn .ruleEnd)) = colon :: after ∧ colon.kind = .colon ∧
      rest = (block after).2 ∧
      tree = .node .command
        (.node .rule (leaves (first :: rule)) :: leaves [colon] ++ (block after).1) := by
  unfold command? at h
  split at h
  · rename_i first rule colon after ht hd
    split at h
    · rename_i hc
      cases h
      exact ⟨first, rule, colon, after, ht, hd, hc, rfl, rfl⟩
    · cases h
  · cases h

theorem splits_header? (h : header? above row = some (tree, rest)) : SplitsFirst row tree rest := by
  obtain ⟨key, colon, after, hd, _, _, rfl, rfl⟩ := header?_eq_some h
  have hrow : row = row.takeWhile isModifier ++ key :: colon :: (headerLine after).1 ++
      (headerLine after).2 := by
    conv => lhs; rw [← List.takeWhile_append_dropWhile (p := isModifier) (l := row), hd]
    simp [headerLine_append]
  obtain ⟨first, taken, ht⟩ : ∃ first taken,
      row.takeWhile isModifier ++ key :: colon :: (headerLine after).1 = first :: taken :=
    List.exists_cons_of_ne_nil (by simp)
  exact ⟨first, taken, by rw [← ht]; exact hrow, by rw [← ht]; simp⟩

theorem splits_arguments? (h : arguments? row = some (ts, rest)) : Splits row ts rest := by
  rcases arguments?_eq_some h with ⟨_, rfl, rfl⟩ | ⟨w, after, close, rfl, _, hd, rfl⟩
  · exact .refl _
  · refine ⟨w :: after.takeWhile (takes (· == some .parenClose)) ++ [close], ?_, by simp⟩
    conv => lhs; rw [← List.takeWhile_append_dropWhile (p := takes (· == some .parenClose))
      (l := after), hd]
    simp

/-- What stands around a block of a construct that starts with `first`. -/
theorem Splits.first (h : Splits row ts rest) (kind : NodeKind) (first : Spaced)
    (before : List Spaced) :
    SplitsFirst (first :: before ++ row) (.node kind (leaves (first :: before) ++ ts)) rest := by
  obtain ⟨taken, rfl, ht⟩ := h
  exact ⟨first, before ++ taken, by simp, by simp [ht]⟩

theorem splits_binding? (h : binding? row = some (tree, rest)) : SplitsFirst row tree rest := by
  obtain ⟨keyword, after, arguments, colon, rest', rfl, _, ha, _, rfl, rfl⟩ := binding?_eq_some h
  have hs := (splits_arguments? ha).trans
    ((splits_leaves [colon] rest').trans (splits_block rest'))
  simpa using hs.first .binding keyword []

theorem splits_command? (h : command? row = some (tree, rest)) : SplitsFirst row tree rest := by
  obtain ⟨first, rule, colon, after, ht, hd, _, rfl, rfl⟩ := command?_eq_some h
  obtain ⟨taken, he, hl⟩ := (splits_leaves [colon] after).trans (splits_block after)
  refine ⟨first, rule ++ taken, ?_, ?_⟩
  · rw [← List.takeWhile_append_dropWhile (p := takes (Ahead.isIn .ruleEnd)) (l := row), ht, hd]
    simpa using he
  · simpa using hl

theorem splits_construct? (h : construct? above row = some (tree, rest)) :
    SplitsFirst row tree rest := by
  rcases Option.or_eq_some_iff.mp h with h | ⟨_, h⟩
  · exact splits_header? h
  · rcases Option.or_eq_some_iff.mp h with h | ⟨_, h⟩
    · exact splits_binding? h
    · exact splits_command? h

/-- A round takes its first token, and the leaves of its tree are the tokens it takes. -/
theorem splits_next (above : Bool) (w : Spaced) (row : List Spaced) :
    ∃ taken, row = taken ++ (next above w row).2 ∧
      (next above w row).1.leaves = w.token :: tokens taken := by
  unfold next
  cases h : construct? above (w.bare :: row) with
  | none => exact ⟨[], rfl, rfl⟩
  | some result =>
    obtain ⟨tree, rest⟩ := result
    obtain ⟨first, taken, he, hl⟩ := splits_construct? h
    simp only [List.cons_append, List.cons.injEq] at he
    obtain ⟨rfl, he⟩ := he
    exact ⟨taken, he, by simpa [bare] using hl⟩

theorem length_next_lt (above : Bool) (w : Spaced) (row : List Spaced) :
    (next above w row).2.length < (w :: row).length := by
  obtain ⟨taken, he, _⟩ := splits_next above w row
  have := congrArg List.length he
  simp only [List.length_append] at this
  simp only [List.length_cons]
  omega

/-- One round: the trivia before its first token, and its tree. -/
structure Round where
  lead : List Token
  tree : Tree

def Round.trees (round : Round) : List Tree :=
  round.lead.map .leaf ++ [round.tree]

def hasSeparator (tokens : List Token) : Bool :=
  tokens.any fun t => t.kind == .separator

theorem hasSeparator_append (as bs : List Token) :
    hasSeparator (as ++ bs) = (hasSeparator as || hasSeparator bs) :=
  List.any_append

theorem hasSeparator_trivia {tokens : List Token} (h : ∀ t ∈ tokens, t.isTrivia = true) :
    hasSeparator tokens = false := by
  apply List.any_eq_false.mpr
  intro t ht
  have := h t ht
  cases hk : t.kind <;> simp_all [Token.isTrivia, TokenKind.isTrivia]

/-- The rounds of the parser over a row. -/
def rounds (above : Bool) : List Spaced → List Round
  | [] => []
  | w :: row =>
    ⟨w.lead, (next above w row).1⟩ ::
      rounds (above && !hasSeparator (next above w row).1.leaves) (next above w row).2
termination_by row => row.length
decreasing_by exact length_next_lt above w row

/-- The trees of a whole row. -/
def file (above : Bool) (row : List Spaced) : List Tree :=
  (rounds above row).flatMap Round.trees

theorem file_nil (above : Bool) : file above [] = [] := by
  simp [file, rounds]

theorem file_cons (above : Bool) (w : Spaced) (row : List Spaced) :
    file above (w :: row) = w.lead.map .leaf ++ (next above w row).1 ::
      file (above && !hasSeparator (next above w row).1.leaves) (next above w row).2 := by
  simp [file, rounds, Round.trees]

theorem leavesAll_file (above : Bool) (row : List Spaced) :
    Tree.leavesAll (file above row) = tokens row := by
  fun_induction rounds above row with
  | case1 above => simp [file_nil]
  | case2 above w row ih =>
    obtain ⟨taken, he, hl⟩ := splits_next above w row
    rw [file_cons]
    simp only [Tree.leavesAll_append, Tree.leavesAll_map_leaf, Tree.leavesAll_cons, ih]
    conv => rhs; rw [he]
    simp [hl]

end Reading

end VoiceScript
