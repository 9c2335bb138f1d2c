import VoiceScript.Proofs.LongestMatch
import VoiceScript.Proofs.Runs

namespace VoiceScript

/-- How a kind of literal is written. -/
structure Delimiters where
  opening : Char
  closing : Char
  /-- Whether a backslash takes the character after it along. -/
  escapes : Bool
  /-- Whether it goes on over the end of a line. -/
  multiline : Bool

namespace Delimiters

def string : Delimiters :=
  ⟨'"', '"', true, true⟩

def capture : Delimiters :=
  ⟨'<', '>', false, false⟩

def regex : Delimiters :=
  ⟨'^', '$', true, false⟩

/-- Whether a literal that is not closed has to stop in front of a text. -/
def Stops (d : Delimiters) (rest : List Char) : Prop :=
  rest = [] ∨ d.multiline = false ∧ rest.head? = some '\n'

end Delimiters

def TokenKind.delimiters? : TokenKind → Option Delimiters
  | .string => some .string
  | .capture => some .capture
  | .regex => some .regex
  | _ => none

namespace Literal

/-- Whether the next character is escaped, by the characters from the opening on. Backslashes pair up from
there: one that is escaped itself escapes nothing. -/
def isEscaped (escapes : Bool) (before : List Char) : Bool :=
  before.foldl (fun escaped c => escapes && c == '\\' && !escaped) false

variable {close c : Char} {escapes : Bool} {inner front back body rest cs : List Char} {d : Delimiters}

theorem isEscaped_plain (h : escapes = true → c ≠ '\\') (cs : List Char) :
    isEscaped escapes (c :: cs) = isEscaped escapes cs := by
  have hc : (escapes && c == '\\') = false := by simpa using h
  simp [isEscaped, hc]

theorem isEscaped_pair (c : Char) (cs : List Char) :
    isEscaped true ('\\' :: c :: cs) = isEscaped true cs := by
  simp [isEscaped]

/-- What goes on inside of a literal leaves nothing escaped behind it. -/
theorem Inner.isEscaped_eq_false (h : Inner close escapes inner) : isEscaped escapes inner = false := by
  induction h with
  | nil => rfl
  | plain hc hb rest ih => rw [isEscaped_plain hb, ih]
  | escaped he rest ih =>
    cases he
    rw [isEscaped_pair, ih]

/-- A closing character inside of a literal is escaped. -/
theorem Inner.isEscaped_of_append (hb : close ≠ '\\') (h : Inner close escapes (front ++ close :: back)) :
    isEscaped escapes front = true := by
  generalize htext : front ++ close :: back = text at h
  induction h generalizing front with
  | nil => simp at htext
  | @plain c cs hc hplain rest ih =>
    cases front with
    | nil => exact absurd (List.cons.inj htext).1.symm hc
    | cons e front =>
      obtain ⟨rfl, hcs⟩ := List.cons.inj htext
      rw [isEscaped_plain hplain, ih hcs]
  | @escaped c cs he rest ih =>
    cases he
    rcases front with _ | ⟨e, _ | ⟨e', front⟩⟩
    · exact absurd (List.cons.inj htext).1 hb
    · obtain ⟨rfl, _⟩ := List.cons.inj htext
      rfl
    · obtain ⟨rfl, htail⟩ := List.cons.inj htext
      obtain ⟨rfl, hcs⟩ := List.cons.inj htail
      rw [isEscaped_pair, ih hcs]

/-- How the text behind the opening of a literal falls into the part that belongs to it and the rest. Where the
closing character is missing, a backslash at the end has nothing to escape. -/
inductive Ends (d : Delimiters) : List Char → List Char → Prop
  | closed {inner : List Char} (h : Inner d.closing d.escapes inner) (rest : List Char) :
      Ends d (inner ++ [d.closing]) rest
  | unclosed {inner rest : List Char} (h : Inner d.closing d.escapes inner) (hs : d.Stops rest) :
      Ends d inner rest
  | backslash {inner rest : List Char} (h : Inner d.closing d.escapes inner) (he : d.escapes = true)
      (hs : d.Stops rest) : Ends d (inner ++ ['\\']) rest

theorem Ends.plain (h : Ends d body rest) (hc : c ≠ d.closing) (hb : d.escapes = true → c ≠ '\\') :
    Ends d (c :: body) rest := by
  cases h with
  | closed h rest => exact .closed (.plain hc hb h) rest
  | unclosed h hs => exact .unclosed (.plain hc hb h) hs
  | backslash h he hs => exact .backslash (.plain hc hb h) he hs

theorem Ends.pair (h : Ends d body rest) (he : d.escapes = true) (c : Char) :
    Ends d ('\\' :: c :: body) rest := by
  cases h with
  | closed h rest => exact .closed (.escaped he h) rest
  | unclosed h hs => exact .unclosed (.escaped he h) hs
  | backslash h _ hs => exact .backslash (.escaped he h) he hs

theorem ends_stringTail (cs : List Char) :
    Ends .string (cs.take (Lexeme.stringTail cs)) (cs.drop (Lexeme.stringTail cs)) := by
  fun_induction Lexeme.stringTail cs with
  | case1 => exact .unclosed .nil (.inl rfl)
  | case2 cs => exact .closed .nil cs
  | case3 e cs ih =>
    rw [Nat.add_comm]
    exact ih.pair rfl e
  | case4 c cs hquote hescape ih =>
    by_cases hc : c = '\\'
    · cases cs with
      | nil =>
        rw [hc]
        exact .backslash .nil rfl (.inl rfl)
      | cons e es => exact (hescape e es hc rfl).elim
    · rw [Nat.add_comm]
      exact ih.plain hquote fun _ => hc

theorem ends_captureTail (cs : List Char) :
    Ends .capture (cs.take (Lexeme.captureTail cs)) (cs.drop (Lexeme.captureTail cs)) := by
  fun_induction Lexeme.captureTail cs with
  | case1 => exact .unclosed .nil (.inl rfl)
  | case2 cs => exact .closed .nil cs
  | case3 cs => exact .unclosed .nil (.inr ⟨rfl, rfl⟩)
  | case4 c cs hclose hnewline ih =>
    rw [Nat.add_comm]
    exact ih.plain hclose fun he => by cases he

theorem ends_regexTail (cs : List Char) :
    Ends .regex (cs.take (Lexeme.regexTail cs)) (cs.drop (Lexeme.regexTail cs)) := by
  fun_induction Lexeme.regexTail cs with
  | case1 => exact .unclosed .nil (.inl rfl)
  | case2 cs => exact .closed .nil cs
  | case3 cs => exact .unclosed .nil (.inr ⟨rfl, rfl⟩)
  | case4 cs => exact .backslash .nil rfl (.inr ⟨rfl, rfl⟩)
  | case5 e cs he ih =>
    rw [Nat.add_comm]
    exact ih.pair rfl e
  | case6 c cs hdollar hnewline hescaped hescape ih =>
    by_cases hc : c = '\\'
    · cases cs with
      | nil =>
        rw [hc]
        exact .backslash .nil rfl (.inl rfl)
      | cons e es => exact (hescape e es hc rfl).elim
    · rw [Nat.add_comm]
      exact ih.plain hdollar fun _ => hc

/-- A closing character before the end is escaped. -/
theorem Ends.isEscaped_of_append (hb : d.closing ≠ '\\') (h : Ends d body rest)
    (hbody : body = front ++ d.closing :: back) (hback : back ≠ []) :
    isEscaped d.escapes front = true := by
  obtain ⟨back, last, rfl⟩ := (List.eq_nil_or_concat' back).resolve_left hback
  have hlast : ∀ {inner : List Char} {c : Char}, Inner d.closing d.escapes inner →
      inner ++ [c] = front ++ d.closing :: (back ++ [last]) → isEscaped d.escapes front = true := by
    intro inner c h heq
    rw [← List.cons_append, ← List.append_assoc] at heq
    obtain ⟨rfl, _⟩ := List.append_inj' heq rfl
    exact h.isEscaped_of_append hb
  cases h with
  | closed h rest => exact hlast h hbody
  | unclosed h hs =>
    rw [hbody] at h
    exact h.isEscaped_of_append hb
  | backslash h he hs => exact hlast h hbody

theorem Ends.isClosed_iff (hb : d.closing ≠ '\\') (h : Ends d body rest) :
    isClosed d.closing d.escapes body = true ↔
      ∃ inner, body = inner ++ [d.closing] ∧ isEscaped d.escapes inner = false := by
  constructor
  · intro hclosed
    obtain ⟨inner, hbody, hinner⟩ := inner_of_isClosed hclosed
    exact ⟨inner, hbody, hinner.isEscaped_eq_false⟩
  · rintro ⟨inner, hbody, hescaped⟩
    cases h with
    | closed h rest => exact isClosed_of_inner hb h
    | unclosed h hs =>
      rw [hbody] at h
      rw [h.isEscaped_of_append hb] at hescaped
      cases hescaped
    | backslash h he hs =>
      have hlast := (List.append_inj' hbody rfl).2
      exact absurd (List.cons.inj hlast).1.symm hb

theorem Ends.stops (hb : d.closing ≠ '\\') (h : Ends d body rest)
    (ho : isClosed d.closing d.escapes body = false) : d.Stops rest := by
  cases h with
  | closed h rest =>
    rw [isClosed_of_inner hb h] at ho
    cases ho
  | unclosed h hs => exact hs
  | backslash h he hs => exact hs

end Literal

namespace TokenKind

variable {kind : TokenKind} {d : Delimiters}

theorem closing_ne_backslash (h : kind.delimiters? = some d) : d.closing ≠ '\\' := by
  cases kind <;> cases h <;> decide

end TokenKind

namespace Mode

open Lexeme

variable {mode : Mode} {c : Char} {cs : List Char} {d : Delimiters}

theorem delimiters?_classify (mode : Mode) (name : List Char) (called : Bool) :
    (mode.classify name called).delimiters? = none := by
  rcases mode.classify_kind name called with ⟨keyword, hk⟩ | hk
  · rw [hk]
    rfl
  · simp only [List.mem_cons, List.not_mem_nil, or_false] at hk
    rcases hk with hk | hk | hk | hk | hk <;> rw [hk] <;> rfl

/-- A mode makes no literals. -/
theorem refine_eq_or_delimiters? (mode : Mode) (c : Char) (cs : List Char) (found : Lexeme) :
    mode.refine c cs found = found ∨ (mode.refine c cs found).kind.delimiters? = none := by
  unfold refine
  split
  · split
    · exact .inr rfl
    · exact .inl rfl
  · split
    · exact .inr rfl
    · exact .inl rfl
  · exact .inr (delimiters?_classify _ _ _)
  · exact .inl rfl

theorem front_lexeme (h : (mode.lexeme c cs).kind.delimiters? = some d) :
    Front c cs (mode.lexeme c cs) := by
  unfold Mode.lexeme at h ⊢
  split at h
  · rename_i found hf
    rcases mode.refine_eq_or_delimiters? c cs found with heq | hnone
    · simp only [heq]
      exact front_of_front? hf
    · rw [hnone] at h
      cases h
  · cases h

theorem ends_lexeme (h : (mode.lexeme c cs).kind.delimiters? = some d) :
    c = d.opening ∧
      Literal.Ends d (cs.take (mode.lexeme c cs).more) (cs.drop (mode.lexeme c cs).more) := by
  have hfront := front_lexeme h
  generalize mode.lexeme c cs = found at h hfront
  cases hfront with
  | string cs =>
    cases h
    exact ⟨rfl, Literal.ends_stringTail cs⟩
  | capture cs =>
    cases h
    exact ⟨rfl, Literal.ends_captureTail cs⟩
  | regex cs =>
    cases h
    exact ⟨rfl, Literal.ends_regexTail cs⟩
  | _ => cases h

end Mode

namespace Literal

open Tokenizer

variable {source : List Char} {token : Token} {d : Delimiters}

/-- A literal as it stands in a text. -/
structure Delimited (source : List Char) (d : Delimiters) (token : Token) : Prop where
  opened : ∃ body, token.text = d.opening :: body
  /-- It is reported unless it is closed. -/
  reported_iff : unclosed? token = none ↔ isClosed d.closing d.escapes token.text.tail = true
  /-- It is closed if it ends with its closing character, which must be another one than that it opens with, and
  must not be escaped. -/
  closed_iff : isClosed d.closing d.escapes token.text.tail = true ↔
    ∃ inner, token.text = d.opening :: inner ++ [d.closing] ∧ isEscaped d.escapes inner = false
  /-- Between the ends each closing character is escaped. -/
  inside : ∀ front back, token.text = d.opening :: front ++ d.closing :: back → back ≠ [] →
    isEscaped d.escapes front = true
  /-- A literal that is not closed goes on to the end of the text, or of the line. -/
  stops : isClosed d.closing d.escapes token.text.tail = false →
    token.stop = Text.byteLength source ∨
      d.multiline = false ∧ (Text.dropBytes token.stop source).head? = some '\n'

theorem reported_iff_of_kind (h : token.kind.delimiters? = some d) :
    unclosed? token = none ↔ isClosed d.closing d.escapes token.text.tail = true := by
  simp only [unclosed?]
  generalize token.kind = kind at h ⊢
  cases kind <;> cases h <;> simp [Delimiters.string, Delimiters.capture, Delimiters.regex]

/-- The text falls into what stands before a token, the token, and what is left to be cut. -/
theorem exists_next?_of_mem_tokenize (h : token ∈ tokenize source) :
    ∃ (before : List Char) (u v : Tokenizer), u.next? = some (token, v) ∧
      source = before ++ token.text ++ v.rest ∧
      token.stop = Text.byteLength (before ++ token.text) := by
  obtain ⟨u, v, hreaches, hnext⟩ := exists_next?_of_mem h
  obtain ⟨before, _, hrest, hoffset⟩ := hreaches.exists_before
  refine ⟨Token.spelling before, u, v, hnext, ?_, ?_⟩
  · rw [← next?_text hnext] at hrest
    rw [List.append_assoc]
    exact hrest
  · rw [Token.stop, (next?_place hnext).1, hoffset, Text.byteLength_append]
    simp [ofText]

theorem ends_next? {t u : Tokenizer} (h : t.next? = some (token, u))
    (hk : token.kind.delimiters? = some d) :
    ∃ body, token.text = d.opening :: body ∧ Ends d body u.rest := by
  unfold next? at h
  split at h
  · cases h
  · cases h
    obtain ⟨rfl, hends⟩ := Mode.ends_lexeme hk
    exact ⟨_, rfl, hends⟩

theorem delimited (h : token ∈ tokenize source) (hk : token.kind.delimiters? = some d) :
    Delimited source d token := by
  obtain ⟨before, t, u, hnext, hsource, hstop⟩ := exists_next?_of_mem_tokenize h
  obtain ⟨body, htext, hends⟩ := ends_next? hnext hk
  have hb := TokenKind.closing_ne_backslash hk
  refine ⟨⟨body, htext⟩, reported_iff_of_kind hk, ?_, ?_, ?_⟩
  · rw [htext, List.tail_cons, hends.isClosed_iff hb]
    simp
  · intro front back heq hback
    rw [htext, List.cons_append] at heq
    exact hends.isEscaped_of_append hb (List.cons.inj heq).2 hback
  · intro ho
    rw [htext, List.tail_cons] at ho
    rcases hends.stops hb ho with hnil | ⟨hline, hhead⟩
    · left
      rw [hstop, hsource, hnil, List.append_nil]
    · right
      rw [hstop, hsource, Text.dropBytes_append]
      exact ⟨hline, hhead⟩

/-- Nothing is behind a string that is not closed. -/
theorem getLast?_of_flaw (h : token ∈ tokenize source) (hf : Flaw token .unterminatedString) :
    (tokenize source).getLast? = some token := by
  cases hf with
  | unterminatedString hk ho =>
    have hd : token.kind.delimiters? = some .string := by rw [hk]; rfl
    rw [← isClosed_tail_iff (by decide), Bool.not_eq_true] at ho
    rcases (delimited h hd).stops ho with hstop | ⟨hline, _⟩
    · exact getLast?_of_stop_eq h hstop
    · cases hline

theorem countP_unterminatedString_le (source : List Char) :
    ((tokenize source).filterMap diagnostic?).countP (·.problem == .unterminatedString) ≤ 1 := by
  rcases List.eq_nil_or_concat' (tokenize source) with hnil | ⟨front, last, hsplit⟩
  · rw [hnil]
    exact Nat.zero_le 1
  · have hfront : (front.filterMap diagnostic?).countP (·.problem == .unterminatedString) = 0 := by
      rw [List.countP_eq_zero]
      intro diagnostic hmem hproblem
      obtain ⟨token, ht, hflaw, _⟩ := flaw_of_mem_diagnostics hmem
      rw [beq_iff_eq.mp hproblem] at hflaw
      have htoken : token ∈ tokenize source := by simp [hsplit, ht]
      have hlast := getLast?_of_flaw htoken hflaw
      rw [hsplit, List.getLast?_concat, Option.some_inj] at hlast
      have hnodup := (tokenize_consecutive source).toOrdered.nodup
      rw [hsplit, hlast] at hnodup
      exact List.disjoint_of_nodup_append hnodup ht (List.mem_singleton_self token)
    rw [hsplit, List.filterMap_append, List.countP_append, hfront, Nat.zero_add]
    exact List.countP_le_length.trans (List.length_filterMap_le _ _)

end Literal

/-- The test for the end of a literal agrees with the cut of the tokens. So one string of a text can be reported
as not closed, which is then its last token. -/
theorem literals_closed (source : List Char) :
    (∀ token ∈ tokenize source, ∀ d, token.kind.delimiters? = some d →
      Literal.Delimited source d token) ∧
    ∃ p, parse source = .ok p ∧
      p.diagnostics.countP (·.problem == .unterminatedString) ≤ 1 ∧
      ∀ diagnostic ∈ p.diagnostics, diagnostic.problem = .unterminatedString →
        ∃ last, (tokenize source).getLast? = some last ∧ last.kind = .string ∧
          diagnostic.span = last.span := by
  refine ⟨fun token ht d hd => Literal.delimited ht hd, ?_⟩
  obtain ⟨row, tail, hs, ht⟩ := Spaced.exists_tokens_eq (tokenize source)
  refine ⟨_, parse_eq_runSpans hs ht, ?_, ?_⟩
  · have hruns : ∀ spans : List Span,
        (spans.map (unrecognized source)).countP (·.problem == .unterminatedString) = 0 := by
      intro spans
      rw [List.countP_map, List.countP_eq_zero]
      intro span _ hproblem
      cases hproblem
    rw [List.countP_append, hruns, Nat.add_zero]
    exact Literal.countP_unterminatedString_le source
  · intro diagnostic hmem hproblem
    rcases List.mem_append.mp hmem with hmem | hmem
    · obtain ⟨token, ht, hflaw, hspan⟩ := Literal.flaw_of_mem_diagnostics hmem
      rw [hproblem] at hflaw
      refine ⟨token, Literal.getLast?_of_flaw ht hflaw, ?_, hspan⟩
      cases hflaw with
      | unterminatedString hk ho => exact hk
    · obtain ⟨span, _, rfl⟩ := List.mem_map.mp hmem
      cases hproblem

/-- A backslash before the closing character takes it along, unless another backslash takes that one. -/
example : ((tokenize "<a\n^\\$\n\"b\\\\\"\"\\\"".toList).filter fun t => t.kind.delimiters?.isSome).map
      (fun t => (String.ofList t.text, Literal.unclosed? t)) =
    [("<a", some .unclosedCapture), ("^\\$", some .unterminatedRegex), ("\"b\\\\\"", none),
      ("\"\\\"", some .unterminatedString)] := by
  decide +kernel

end VoiceScript
