import VoiceScript.Parser.State

namespace VoiceScript.Parser

/-- The separator that ends the context headers, if it comes, with its newline. -/
def separatorLine (p : Parser) : Except Fault Parser := do
  let p ← p.look
  if p.next? = some .separator then p.bump >>= eat .newline else return p

def header (p : Parser) : Except Fault Parser := do
  let p ← (p.openNode .header).bumpUntil fun kind => !Ahead.isIn .modifiers kind
  let p ← p.bump
  let p ← p.expect .colon
  let p ← p.bumpUntil Ahead.isLineEnd
  let p ← p.eat .newline
  let p ← p.separatorLine
  return p.closeNode

def statement (p : Parser) : Except Fault Parser := do
  let p ← (p.openNode .statement).bumpUntil Ahead.isLineEnd
  return p.closeNode

/-- A statement and the newline after it. -/
def statementLine (p : Parser) : Except Fault Parser :=
  p.statement >>= eat .newline

theorem next?_look {p q : Parser} (h : p.look = .ok q) :
    q.next? = p.skipTrivia.next? ∧ q.skipTrivia.next? = q.next? := by
  have idem : Ahead.skipTrivia (Ahead.skipTrivia p.rest) = Ahead.skipTrivia p.rest := by
    unfold Ahead.skipTrivia
    cases hd : p.rest.dropWhile Token.isTrivia with
    | nil => rfl
    | cons token rest =>
      have hn : ¬ token.isTrivia = true := by
        have := List.head?_dropWhile_not Token.isTrivia p.rest
        rw [hd] at this
        simpa using this
      rw [List.dropWhile_cons_of_neg hn]
  unfold look at h
  split at h
  · cases h
  · cases h
    exact ⟨rfl, congrArg Ahead.first? idem⟩

/-- Tokens that do not start with a reason to stop are taken. -/
theorem bumpUntil_rest_lt {stop : Option TokenKind → Bool} {p q : Parser}
    (go : stop p.skipTrivia.next? = false) (h : p.bumpUntil stop = .ok q) :
    q.rest.length < p.rest.length := by
  unfold bumpUntil at h
  split at h
  · cases h
  · rename_i r hl
    rw [(next?_look hl).1, go] at h
    simp only [Bool.false_eq_true, if_false] at h
    split at h
    · cases h
    · rename_i s hb
      have := look_rest_le hl
      have := bump_rest_lt hb
      have := bumpUntil_rest_le h
      omega

theorem statementLine_rest_lt {p q : Parser} (go : Ahead.isLineEnd p.skipTrivia.next? = false)
    (h : p.statementLine = .ok q) : q.rest.length < p.rest.length := by
  obtain ⟨r, hs, h⟩ := bind_ok.mp h
  obtain ⟨t, hu, hs⟩ := bind_ok.mp hs
  cases hs
  have ht : t.rest.length < p.rest.length :=
    bumpUntil_rest_lt (p := p.openNode .statement) go hu
  have hq : q.rest.length ≤ t.rest.length := eat_rest_le (p := t.closeNode) h
  omega

/-- Lines of a block, up to one that starts another construct. -/
def blockLines (p : Parser) : Except Fault Parser :=
  match _hl : p.look with
  | .error fault => .error fault
  | .ok q =>
    if q.next? = none ∨ Ahead.isIn .topLevelFirst q.next? then .ok q
    else if q.next? = some .newline then
      match _hb : q.bump with
      | .error fault => .error fault
      | .ok r => r.blockLines
    else
      match _hs : q.statementLine with
      | .error fault => .error fault
      | .ok r => r.blockLines
termination_by p.rest.length
decreasing_by
  · have := look_rest_le _hl
    have := bump_rest_lt _hb
    omega
  · rename_i hfirst hnewline
    have hgo : Ahead.isLineEnd q.skipTrivia.next? = false := by
      rw [(next?_look _hl).2]
      cases hn : q.next? with
      | none => exact absurd (Or.inl hn) hfirst
      | some kind =>
        have hk : kind ≠ .newline := fun he => hnewline (he ▸ hn)
        simpa [Ahead.isLineEnd] using hk
    have := look_rest_le _hl
    have := statementLine_rest_lt hgo _hs
    omega

/-- The rest of the line of a colon, as a statement unless it is empty. -/
def colonLine (p : Parser) : Except Fault Parser := do
  let p ← p.look
  if Ahead.isLineEnd p.next? then return p else p.statement

/-- What follows a colon: the rest of its line, then lines of their own. -/
def block (p : Parser) : Except Fault Parser := do
  let p ← p.colonLine
  let p ← p.eat .newline
  p.blockLines

def command (p : Parser) : Except Fault Parser := do
  let p ← ((p.openNode .command).openNode .rule).bumpUntil (Ahead.isIn .ruleEnd)
  let p ← p.closeNode.expect .colon
  let p ← p.block
  return p.closeNode

/-- The arguments of a binding with their parentheses, if there are any. -/
def arguments (p : Parser) : Except Fault Parser := do
  let p ← p.look
  if p.next? = some .parenOpen then
    let p ← (p.openNode .bindingArgs).bump
    let p ← p.bumpUntil (· == some .parenClose)
    let p ← p.bump
    return p.closeNode
  else return p

def binding (p : Parser) : Except Fault Parser := do
  let p ← (p.openNode .binding).bump
  let p ← p.arguments
  let p ← p.expect .colon
  let p ← p.block
  return p.closeNode

/-- A binding, or else the next token alone. -/
def bindingOrDropped (p : Parser) : Except Fault Parser := do
  let p ← p.look
  if Ahead.binding p.rest then p.reportDropped.binding else p.drop

/-- What comes if it is no context header. A command is a run of tokens up to a colon on the line,
unless it reads as a binding. -/
def commandOrOther (p : Parser) : Except Fault Parser := do
  let p ← p.look
  if p.next? = none ∨ Ahead.isIn .ruleEnd p.next? then p.bindingOrDropped
  else
    let p ← p.look
    if !Ahead.binding p.rest && Ahead.colonOnLine p.rest then p.reportDropped.command
    else p.bindingOrDropped

/-- The construct that comes, or else the next token alone. -/
def item (p : Parser) : Except Fault Parser := do
  let p ← p.look
  if Ahead.header p.aboveSeparator p.rest then p.reportDropped.header
  else p.commandOrOther

theorem separatorLine_rest_le {p q : Parser} (h : p.separatorLine = .ok q) :
    q.rest.length ≤ p.rest.length := by
  obtain ⟨a, ha, h⟩ := bind_ok.mp h
  have := look_rest_le ha
  split at h
  · obtain ⟨b, hb, h⟩ := bind_ok.mp h
    have := bump_rest_lt hb
    have := eat_rest_le h
    omega
  · cases h
    exact this

theorem header_rest_lt {p q : Parser} (h : p.header = .ok q) : q.rest.length < p.rest.length := by
  obtain ⟨a, ha, h⟩ := bind_ok.mp h
  obtain ⟨b, hb, h⟩ := bind_ok.mp h
  obtain ⟨c, hc, h⟩ := bind_ok.mp h
  obtain ⟨d, hd, h⟩ := bind_ok.mp h
  obtain ⟨e, he, h⟩ := bind_ok.mp h
  obtain ⟨f, hf, h⟩ := bind_ok.mp h
  cases h
  have ha : a.rest.length ≤ p.rest.length := bumpUntil_rest_le (p := p.openNode .header) ha
  have := bump_rest_lt hb
  have := expect_rest_lt hc
  have := bumpUntil_rest_le hd
  have := eat_rest_le he
  have := separatorLine_rest_le hf
  change f.rest.length < p.rest.length
  omega

theorem statement_rest_le {p q : Parser} (h : p.statement = .ok q) :
    q.rest.length ≤ p.rest.length := by
  obtain ⟨r, hu, h⟩ := bind_ok.mp h
  cases h
  have := bumpUntil_rest_le hu
  exact this

theorem statementLine_rest_le {p q : Parser} (h : p.statementLine = .ok q) :
    q.rest.length ≤ p.rest.length := by
  obtain ⟨r, hs, h⟩ := bind_ok.mp h
  exact Nat.le_trans (eat_rest_le h) (statement_rest_le hs)

theorem blockLines_rest_le {p q : Parser} (h : p.blockLines = .ok q) :
    q.rest.length ≤ p.rest.length := by
  fun_induction blockLines p with
  | case1 => cases h
  | case2 p r hl hs =>
    cases h
    exact look_rest_le hl
  | case3 => cases h
  | case4 p r hl hs hn s hb ih =>
    have := look_rest_le hl
    have := bump_rest_lt hb
    have := ih h
    omega
  | case5 => cases h
  | case6 p r hl hs hn s hb ih =>
    have := look_rest_le hl
    have := statementLine_rest_le hb
    have := ih h
    omega

theorem colonLine_rest_le {p q : Parser} (h : p.colonLine = .ok q) :
    q.rest.length ≤ p.rest.length := by
  obtain ⟨a, ha, h⟩ := bind_ok.mp h
  have := look_rest_le ha
  split at h
  · cases h
    exact this
  · exact Nat.le_trans (statement_rest_le h) this

theorem block_rest_le {p q : Parser} (h : p.block = .ok q) : q.rest.length ≤ p.rest.length := by
  obtain ⟨a, ha, h⟩ := bind_ok.mp h
  obtain ⟨b, hb, h⟩ := bind_ok.mp h
  exact Nat.le_trans (blockLines_rest_le h) (Nat.le_trans (eat_rest_le hb) (colonLine_rest_le ha))

theorem command_rest_lt {p q : Parser} (h : p.command = .ok q) : q.rest.length < p.rest.length := by
  obtain ⟨a, ha, h⟩ := bind_ok.mp h
  obtain ⟨b, hb, h⟩ := bind_ok.mp h
  obtain ⟨c, hc, h⟩ := bind_ok.mp h
  cases h
  have ha : a.rest.length ≤ p.rest.length :=
    bumpUntil_rest_le (p := (p.openNode .command).openNode .rule) ha
  have hb : b.rest.length < a.rest.length := expect_rest_lt (p := a.closeNode) hb
  have := block_rest_le hc
  change c.rest.length < p.rest.length
  omega

theorem arguments_rest_le {p q : Parser} (h : p.arguments = .ok q) :
    q.rest.length ≤ p.rest.length := by
  obtain ⟨a, ha, h⟩ := bind_ok.mp h
  have := look_rest_le ha
  split at h
  · obtain ⟨b, hb, h⟩ := bind_ok.mp h
    obtain ⟨c, hc, h⟩ := bind_ok.mp h
    obtain ⟨d, hd, h⟩ := bind_ok.mp h
    cases h
    have hb : b.rest.length < a.rest.length := bump_rest_lt (p := a.openNode .bindingArgs) hb
    have := bumpUntil_rest_le hc
    have := bump_rest_lt hd
    change d.rest.length ≤ p.rest.length
    omega
  · cases h
    exact this

theorem binding_rest_lt {p q : Parser} (h : p.binding = .ok q) : q.rest.length < p.rest.length := by
  obtain ⟨a, ha, h⟩ := bind_ok.mp h
  obtain ⟨b, hb, h⟩ := bind_ok.mp h
  obtain ⟨c, hc, h⟩ := bind_ok.mp h
  obtain ⟨d, hd, h⟩ := bind_ok.mp h
  cases h
  have ha : a.rest.length < p.rest.length := bump_rest_lt (p := p.openNode .binding) ha
  have := arguments_rest_le hb
  have := expect_rest_lt hc
  have := block_rest_le hd
  change d.rest.length < p.rest.length
  omega

theorem bindingOrDropped_rest_lt {p q : Parser} (h : p.bindingOrDropped = .ok q) :
    q.rest.length < p.rest.length := by
  obtain ⟨a, ha, h⟩ := bind_ok.mp h
  have := look_rest_le ha
  split at h
  · have := binding_rest_lt h
    rw [reportDropped_rest] at this
    omega
  · have := drop_rest_lt h
    omega

theorem commandOrOther_rest_lt {p q : Parser} (h : p.commandOrOther = .ok q) :
    q.rest.length < p.rest.length := by
  obtain ⟨a, ha, h⟩ := bind_ok.mp h
  have := look_rest_le ha
  split at h
  · have := bindingOrDropped_rest_lt h
    omega
  · obtain ⟨b, hb, h⟩ := bind_ok.mp h
    have := look_rest_le hb
    split at h
    · have := command_rest_lt h
      rw [reportDropped_rest] at this
      omega
    · have := bindingOrDropped_rest_lt h
      omega

/-- Each round of the parser takes a token. -/
theorem item_rest_lt {p q : Parser} (h : p.item = .ok q) : q.rest.length < p.rest.length := by
  obtain ⟨a, ha, h⟩ := bind_ok.mp h
  have := look_rest_le ha
  split at h
  · have := header_rest_lt h
    rw [reportDropped_rest] at this
    omega
  · have := commandOrOther_rest_lt h
    omega

/-- All constructs up to the last token. -/
def items (p : Parser) : Except Fault Parser :=
  match _hl : p.look with
  | .error fault => .error fault
  | .ok q =>
    if q.next? = none then .ok q
    else
      match _hi : q.item with
      | .error fault => .error fault
      | .ok r => r.items
termination_by p.rest.length
decreasing_by
  have := look_rest_le _hl
  have := item_rest_lt _hi
  omega

/-- The whole of a file. Its constructs go by lines, not by indentation:

    file      = (header | command | binding | dropped token)*
    header    = modifier* key ':' rest-of-line newline? (separator newline?)?
    command   = rule ':' block
    binding   = keyword ('(' token* ')')? ':' block
    block     = statement? newline? (statement newline? | newline)*

A block goes on until a line starts with a binding keyword, a modifier or a plain name. -/
def file (p : Parser) : Except Fault Parser := do
  let p ← (p.openNode .file).items
  return p.reportDropped.writeTrivia.closeNode.writeTrivia

end VoiceScript.Parser
