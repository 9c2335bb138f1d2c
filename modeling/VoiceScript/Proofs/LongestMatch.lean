import VoiceScript.Proofs.Patterns
import VoiceScript.Proofs.Scans

namespace VoiceScript

open Pattern Computability

theorem Text.le_of_isLetter {c : Char} (h : Text.isLetter c = true) : 0x41 ≤ c.toNat := by
  have hbound : ascendsFrom 0x41 letterRanges.rows = true := by decide +kernel
  obtain ⟨r, hr, hlow, _⟩ := letterRanges.contains_iff.mp h
  exact Nat.le_trans (Ranges.le_of_mem_ascending hbound hr) hlow

namespace Lexeme

variable {c d : Char} {cs ds : List Char} {lexeme : Lexeme} {test : Char → Bool}

theorem ne_of_test (h : test c = true) (hd : test d = false) : c ≠ d := by
  rintro rfl
  rw [h] at hd
  cases hd

theorem isHorizontal_eq_false (hspace : c ≠ ' ') (htab : c ≠ '\t') (hreturn : c ≠ '\r') :
    isHorizontal c = false := by
  simp [isHorizontal, hspace, htab, hreturn]

theorem isDigit_eq_false (h : isNameStart c = true) : isDigit c = false := by
  apply Bool.eq_false_iff.mpr
  intro hdigit
  have hhigh : c.toNat ≤ 0x39 := by
    have hle : c ≤ '9' := by simpa using (Bool.and_eq_true_iff.mp hdigit).2
    exact hle
  rcases Bool.or_eq_true_iff.mp h with hlow | hletter
  · rw [eq_of_beq hlow] at hdigit
    cases hdigit
  · have := Text.le_of_isLetter hletter
    omega

/-- The classes of first characters are apart, so each piece is found. -/
theorem front?_of_front (h : Front c cs lexeme) : front? c cs = some lexeme := by
  cases h with
  | whitespace h cs => simp [front?, h]
  | newline cs => rfl
  | comment cs => rfl
  | string cs => rfl
  | number h cs =>
    have hblank : isHorizontal c = false :=
      isHorizontal_eq_false (ne_of_test h rfl) (ne_of_test h rfl) (ne_of_test h rfl)
    simp [front?, h, hblank, ne_of_test h (d := '\n') rfl, ne_of_test h (d := '#') rfl,
      ne_of_test h (d := '"') rfl]
  | capture cs => rfl
  | regex cs => rfl
  | path h ds => rw [front?_slash, if_pos h]
  | name h cs =>
    have hblank : isHorizontal c = false :=
      isHorizontal_eq_false (ne_of_test h rfl) (ne_of_test h rfl) (ne_of_test h rfl)
    simp [front?, h, hblank, isDigit_eq_false h, ne_of_test h (d := '\n') rfl,
      ne_of_test h (d := '#') rfl, ne_of_test h (d := '"') rfl, ne_of_test h (d := '<') rfl,
      ne_of_test h (d := '^') rfl, ne_of_test h (d := '/') rfl]
  | punct punct cs => cases punct <;> rfl

theorem front?_eq_some_iff : front? c cs = some lexeme ↔ Front c cs lexeme :=
  ⟨front_of_front?, front?_of_front⟩

/-- A piece is the longest front part in its pattern. -/
theorem Front.longest (h : Front c cs lexeme) : ∃ pattern, lexeme.kind.pattern? = some pattern ∧
    Longest pattern (c :: cs) (c :: cs.take lexeme.more) := by
  cases h with
  | whitespace h cs => exact ⟨_, rfl, whitespace_eq ▸ .one_mul h (longest_run isHorizontal cs)⟩
  | newline cs => exact ⟨_, rfl, .one rfl cs⟩
  | comment cs => exact ⟨_, rfl, comment_eq ▸ .one_mul rfl (longest_run (· != '\n') cs)⟩
  | string cs => exact ⟨_, rfl, .one_mul rfl (longest_stringTail cs)⟩
  | number h cs => exact ⟨_, rfl, .one_mul h (longest_run _ cs)⟩
  | capture cs => exact ⟨_, rfl, .one_mul rfl (longest_captureTail cs)⟩
  | regex cs => exact ⟨_, rfl, .one_mul rfl (longest_regexTail cs)⟩
  | path h ds =>
    refine ⟨_, rfl, path_eq ▸ .one_mul rfl ?_⟩
    rw [Nat.add_comm, List.take_succ_cons]
    exact .one_mul h (longest_run isPathPart ds)
  | name h cs => exact ⟨_, rfl, name_eq ▸ .one_mul h (longest_run isNamePart cs)⟩
  | punct punct cs => exact ⟨_, rfl, .one (by simp) cs⟩

/-- A front part in a pattern that starts with one of some characters makes the text start with that character. -/
theorem exists_of_one_mul {l pattern : Language Char} {text v : List Char} (hv : v ∈ one test * l)
    (hp : v <+: text)
    (hfront : ∀ c cs w, test c = true → w ∈ l → w <+: cs →
      ∃ lexeme, Front c cs lexeme ∧ lexeme.kind.pattern? = some pattern) :
    ∃ c cs lexeme, text = c :: cs ∧ Front c cs lexeme ∧ lexeme.kind.pattern? = some pattern := by
  obtain ⟨c, w, hc, hw, rfl⟩ := mem_one_mul.mp hv
  obtain ⟨cs, rfl, hcs⟩ := List.cons_prefix_iff.mp hp
  obtain ⟨lexeme, hl⟩ := hfront c cs w hc hw hcs
  exact ⟨c, cs, lexeme, rfl, hl⟩

theorem exists_of_oneOf_mul {l pattern : Language Char} {text v : List Char} (hv : v ∈ oneOf [c] * l)
    (hp : v <+: text)
    (hfront : ∀ cs w, w ∈ l → w <+: cs →
      ∃ lexeme, Front c cs lexeme ∧ lexeme.kind.pattern? = some pattern) :
    ∃ d cs lexeme, text = d :: cs ∧ Front d cs lexeme ∧ lexeme.kind.pattern? = some pattern := by
  refine exists_of_one_mul hv hp fun d cs w hd hw hcs => ?_
  obtain rfl : d = c := by simpa using hd
  exact hfront cs w hw hcs

/-- A text with a front part in a pattern has a piece of that pattern at the front. -/
theorem exists_front {kind : TokenKind} {pattern : Language Char} {text v : List Char}
    (hk : kind.pattern? = some pattern) (hv : v ∈ pattern) (hp : v <+: text) :
    ∃ c cs lexeme, text = c :: cs ∧ Front c cs lexeme ∧ lexeme.kind.pattern? = some pattern := by
  cases kind with
  | separator | listRef | invalidChar => cases hk
  | actionName | functionName | variableRef | word | identifier | keyword =>
    cases hk
    rw [name_eq] at hv
    exact exists_of_one_mul hv hp fun c cs _ hc _ _ => ⟨_, .name hc cs, rfl⟩
  | whitespace =>
    cases hk
    rw [whitespace_eq] at hv
    exact exists_of_one_mul hv hp fun c cs _ hc _ _ => ⟨_, .whitespace hc cs, rfl⟩
  | newline =>
    cases hk
    rw [← mul_one (oneOf _)] at hv
    exact exists_of_oneOf_mul hv hp fun cs _ _ _ => ⟨_, .newline cs, rfl⟩
  | comment =>
    cases hk
    exact exists_of_oneOf_mul hv hp fun cs _ _ _ => ⟨_, .comment cs, rfl⟩
  | string =>
    cases hk
    exact exists_of_oneOf_mul hv hp fun cs _ _ _ => ⟨_, .string cs, rfl⟩
  | number =>
    cases hk
    exact exists_of_one_mul hv hp fun c cs _ hc _ _ => ⟨_, .number hc cs, rfl⟩
  | capture =>
    cases hk
    exact exists_of_oneOf_mul hv hp fun cs _ _ _ => ⟨_, .capture cs, rfl⟩
  | regex =>
    cases hk
    exact exists_of_oneOf_mul hv hp fun cs _ _ _ => ⟨_, .regex cs, rfl⟩
  | path =>
    cases hk
    rw [path_eq] at hv
    refine exists_of_oneOf_mul hv hp fun cs w hw hcs => ?_
    obtain ⟨d, ds, hd, _, rfl⟩ := mem_one_mul.mp hw
    obtain ⟨es, rfl, _⟩ := List.cons_prefix_iff.mp hcs
    exact ⟨_, .path hd es, rfl⟩
  | punct p =>
    cases hk
    rw [← mul_one (oneOf _)] at hv
    exact exists_of_oneOf_mul hv hp fun cs _ _ _ => ⟨_, .punct p cs, rfl⟩

/-- No pattern has a longer front part of the text than the piece at the front. -/
theorem longest_any (h : front? c cs = some lexeme) :
    Longest Pattern.any (c :: cs) (c :: cs.take lexeme.more) := by
  obtain ⟨pattern, hk, hl⟩ := (front?_eq_some_iff.mp h).longest
  refine ⟨⟨_, pattern, hk, hl.matched⟩, hl.front, ?_⟩
  rintro v ⟨kind, other, hother, hv⟩ hp
  obtain ⟨d, ds, found, htext, hfound, hkind⟩ := exists_front hother hv hp
  cases htext
  have hsame : found = lexeme := Option.some.inj ((front?_eq_some_iff.mpr hfound).symm.trans h)
  rw [hsame, hk] at hkind
  cases hkind
  exact hl.longest v hv hp

theorem front?_eq_none_iff :
    front? c cs = none ↔ ∀ v ∈ Pattern.any, v <+: c :: cs → v = [] := by
  constructor
  · rintro h v ⟨kind, pattern, hk, hv⟩ hp
    obtain ⟨d, ds, found, htext, hfound, _⟩ := exists_front hk hv hp
    cases htext
    rw [front?_eq_some_iff.mpr hfound] at h
    cases h
  · intro h
    cases hf : front? c cs with
    | none => rfl
    | some lexeme =>
      have hl := longest_any hf
      cases h _ hl.matched hl.front

end Lexeme

namespace Mode

open Lexeme

variable {mode : Mode} {c : Char} {cs rest text : List Char} {found : Lexeme} {more : Nat}

/-- How far dashes go, and then blanks. -/
def dashesThenBlanks (cs : List Char) : Nat :=
  run (· == '-') cs + run isHorizontal (cs.drop (run (· == '-') cs))

theorem dashesThenBlanks_dash (cs : List Char) :
    dashesThenBlanks ('-' :: cs) = 1 + dashesThenBlanks cs := by
  have hrun : run (· == '-') ('-' :: cs) = run (· == '-') cs + 1 := rfl
  rw [dashesThenBlanks, dashesThenBlanks, hrun, List.drop_succ_cons]
  omega

theorem le_dashesThenBlanks (v rest : List Char) (h : ∀ c ∈ v, isHorizontal c = true) :
    v.length ≤ dashesThenBlanks (v ++ rest) := by
  cases v with
  | nil => exact Nat.zero_le _
  | cons c v =>
    have hdash : (c == '-') = false := beq_eq_false_iff_ne.mpr (ne_of_test (h c List.mem_cons_self) rfl)
    have hrun : run (· == '-') (c :: v ++ rest) = 0 := by simp [run, hdash]
    rw [dashesThenBlanks, hrun, Nat.zero_add, List.drop_zero]
    exact le_run (c :: v) rest h

theorem longest_dashesThenBlanks (cs : List Char) :
    Longest ((oneOf ['-'])∗ * (one isHorizontal)∗) cs (cs.take (dashesThenBlanks cs)) := by
  apply longest_take
  · rw [dashesThenBlanks, List.take_add]
    have hdash : (fun c => ['-'].contains c) = (· == '-') := by
      funext c
      exact Bool.eq_iff_iff.mpr (by simp)
    rw [oneOf, hdash]
    exact Language.append_mem_mul (longest_run _ cs).matched (longest_run _ _).matched
  · apply kstar_mul_induction (motive := fun v => ∀ rest, v.length ≤ dashesThenBlanks (v ++ rest))
    · intro v hv rest
      exact le_dashesThenBlanks v rest (mem_kstar_one.mp hv)
    · rintro _ ⟨c, hc, rfl⟩ v ih rest
      have := ih rest
      obtain rfl : c = '-' := by simpa using hc
      rw [List.singleton_append, List.cons_append, dashesThenBlanks_dash, List.length_cons]
      omega

theorem separatorTail?_eq_some (h : separatorTail? cs = some more) :
    2 ≤ run (· == '-') cs ∧ more = dashesThenBlanks cs ∧
      (cs.drop more = [] ∨ (cs.drop more).head? = some '\n') := by
  simp only [separatorTail?] at h
  rw [← dashesThenBlanks] at h
  split at h
  · rename_i hend
    split at h
    · rename_i hdashes
      cases h
      exact ⟨hdashes, rfl, .inl hend⟩
    · cases h
  · rename_i hend
    split at h
    · rename_i hdashes
      cases h
      exact ⟨hdashes, rfl, .inr (by rw [hend]; rfl)⟩
    · cases h
  · cases h

theorem exists_of_two_le_run (h : 2 ≤ run (· == '-') cs) : ∃ ds, cs = '-' :: '-' :: ds := by
  have htake := take_run (· == '-') cs
  have hdashes : ∀ c ∈ cs.take (run (· == '-') cs), c = '-' := by
    rw [htake]
    exact fun c hc => eq_of_beq (List.all_eq_true.mp List.all_takeWhile c hc)
  rcases cs with _ | ⟨c, _ | ⟨d, ds⟩⟩
  · exact absurd h (by decide)
  · have := run_le (· == '-') [c]
    simp only [List.length_singleton] at this
    omega
  · obtain ⟨k, hk⟩ := Nat.exists_eq_add_of_le' h
    rw [hk, List.take_succ_cons, List.take_succ_cons] at hdashes
    exact ⟨ds, by rw [hdashes c (by simp), hdashes d (by simp)]⟩

theorem longest_separator (h : separatorTail? cs = some more) :
    Longest Pattern.separator ('-' :: cs) ('-' :: cs.take more) := by
  obtain ⟨hdashes, rfl, _⟩ := separatorTail?_eq_some h
  obtain ⟨ds, rfl⟩ := exists_of_two_le_run hdashes
  rw [dashesThenBlanks_dash, dashesThenBlanks_dash, Nat.add_comm, List.take_succ_cons, Nat.add_comm,
    List.take_succ_cons, Pattern.separator, oneOf_blanks]
  exact .one_mul rfl (.one_mul rfl (.one_mul rfl (longest_dashesThenBlanks ds)))

theorem listRefTail?_eq_some (h : listRefTail? cs = some more) :
    ∃ name, cs.take more = name ++ ['\x7d'] ∧ '.' ∈ name ∧ '\n' ∉ name ∧ '\x7d' ∉ name := by
  simp only [listRefTail?] at h
  split at h
  · rename_i rest hrest
    split at h
    · rename_i hdot
      cases h
      have hname := fun c hc => List.all_eq_true.mp
        (List.all_takeWhile (l := cs) (p := fun c => c != '\n' && c != '\x7d')) c hc
      refine ⟨_, ?_, by simpa using hdot, fun hn => ?_, fun hn => ?_⟩
      · rw [List.take_add, hrest, ← List.prefix_iff_eq_take.mp (List.takeWhile_prefix _)]
        rfl
      · simpa using hname _ hn
      · simpa using hname _ hn
    · cases h
  · cases h

theorem char_of_punct {p : Punct} (h : front? c cs = some found) (hk : found.kind = .punct p) :
    c = p.char := by
  cases front?_eq_some_iff.mp h with
  | punct q cs =>
    cases hk
    rfl
  | _ => cases hk

theorem pattern?_classify (mode : Mode) (name : List Char) (called : Bool) :
    (mode.classify name called).pattern? = some Pattern.name := by
  rcases mode.classify_kind name called with ⟨keyword, hk⟩ | hk
  · rw [hk]
    rfl
  · simp only [List.mem_cons, List.not_mem_nil, or_false] at hk
    rcases hk with hk | hk | hk | hk | hk <;> rw [hk] <;> rfl

/-- A mode keeps the pattern of a piece, except that it makes separators of dashes and list references of
braces. -/
theorem refine_cases (mode : Mode) (h : front? c cs = some found) :
    ((mode.refine c cs found).kind.pattern? = found.kind.pattern? ∧
      (mode.refine c cs found).more = found.more) ∨
    (∃ more, c = '-' ∧ separatorTail? cs = some more ∧ mode.refine c cs found = ⟨.separator, more⟩) ∨
    (∃ more, c = '\x7b' ∧ listRefTail? cs = some more ∧
      mode.refine c cs found = ⟨.listRef, more⟩) := by
  unfold refine
  split
  · rename_i hk
    split
    · rename_i more hmore
      split at hmore
      · exact .inr (.inl ⟨more, char_of_punct h hk, hmore, rfl⟩)
      · cases hmore
    · exact .inl ⟨rfl, rfl⟩
  · rename_i hk
    split
    · rename_i more hmore
      split at hmore
      · exact .inr (.inr ⟨more, char_of_punct h hk, hmore, rfl⟩)
      · cases hmore
    · exact .inl ⟨rfl, rfl⟩
  · rename_i hk
    rw [hk]
    exact .inl ⟨pattern?_classify _ _ _, rfl⟩
  · exact .inl ⟨rfl, rfl⟩

end Mode

namespace Token

/-- A token that is the most that can be made of the front of a text. -/
structure Munched (rest : List Char) (token : Token) : Prop where
  front : token.text <+: rest
  /-- It has the pattern of its kind, and no pattern has a longer front part. -/
  longest : token.kind ∉ [.invalidChar, .separator, .listRef] →
    (∃ pattern, token.kind.pattern? = some pattern ∧ token.text ∈ pattern) ∧
      Longest Pattern.any rest token.text
  single : token.kind = .invalidChar → ∃ c, token.text = [c]
  invalid : token.kind = .invalidChar ↔ ∀ v ∈ Pattern.any, v <+: rest → v = []
  separator : token.kind = .separator → Longest Pattern.separator rest token.text ∧
    ∃ more, rest = token.text ++ more ∧ (more = [] ∨ more.head? = some '\n')
  listRef : token.kind = .listRef → ∃ name, token.text = '\x7b' :: name ++ ['\x7d'] ∧ '.' ∈ name ∧
    '\n' ∉ name ∧ '\x7d' ∉ name

/-- A token with a pattern is munched if no pattern has a longer front part. -/
theorem Munched.of_longest {rest : List Char} {token : Token} {pattern : Language Char}
    (hk : token.kind.pattern? = some pattern) (hm : token.text ∈ pattern) (hne : token.text ≠ [])
    (hl : Longest Pattern.any rest token.text) : Munched rest token where
  front := hl.front
  longest := fun _ => ⟨⟨pattern, hk, hm⟩, hl⟩
  single := fun h => by
    rw [h] at hk
    cases hk
  invalid := by
    constructor
    · intro h
      rw [h] at hk
      cases hk
    · intro h
      exact absurd (h _ hl.matched hl.front) hne
  separator := fun h => by
    rw [h] at hk
    cases hk
  listRef := fun h => by
    rw [h] at hk
    cases hk

end Token

namespace Tokenizer

open Lexeme Mode

variable {t u : Tokenizer} {token : Token}

theorem munched_lexeme (mode : Mode) (n : Nat) (c : Char) (cs : List Char) :
    Token.Munched (c :: cs) ⟨(mode.lexeme c cs).kind, n, c :: cs.take (mode.lexeme c cs).more⟩ := by
  have hfront : ∀ n, c :: cs.take n <+: c :: cs := fun n =>
    List.cons_prefix_cons.mpr ⟨rfl, List.take_prefix _ _⟩
  cases hf : front? c cs with
  | none =>
    have hlexeme : mode.lexeme c cs = ⟨.invalidChar, 0⟩ := by rw [Mode.lexeme, hf]
    rw [hlexeme]
    exact {
      front := hfront 0
      longest := fun hk => absurd List.mem_cons_self hk
      single := fun _ => ⟨c, rfl⟩
      invalid := ⟨fun _ => front?_eq_none_iff.mp hf, fun _ => rfl⟩
      separator := fun hk => by cases hk
      listRef := fun hk => by cases hk }
  | some found =>
    have hlexeme : mode.lexeme c cs = mode.refine c cs found := by rw [Mode.lexeme, hf]
    have hl := longest_any hf
    have hvalid : ¬ ∀ v ∈ Pattern.any, v <+: c :: cs → v = [] := fun hv => by
      cases hv _ hl.matched hl.front
    obtain ⟨pattern, hpattern, hmatch⟩ := (front?_eq_some_iff.mp hf).longest
    rw [hlexeme]
    rcases mode.refine_cases hf with ⟨hkind, hmore⟩ | ⟨more, rfl, htail, hrefine⟩ |
      ⟨more, rfl, htail, hrefine⟩
    · rw [hmore]
      exact .of_longest (hkind.trans hpattern) hmatch.matched (List.cons_ne_nil _ _) hl
    · rw [hrefine]
      exact {
        front := hfront more
        longest := fun hk => absurd (by simp) hk
        single := fun hk => by cases hk
        invalid := ⟨fun hk => (by cases hk), fun hv => absurd hv hvalid⟩
        separator := fun _ => ⟨longest_separator htail, cs.drop more, by simp,
          (separatorTail?_eq_some htail).2.2⟩
        listRef := fun hk => by cases hk }
    · rw [hrefine]
      obtain ⟨name, htake, hname⟩ := listRefTail?_eq_some htail
      exact {
        front := hfront more
        longest := fun hk => absurd (by simp) hk
        single := fun hk => by cases hk
        invalid := ⟨fun hk => (by cases hk), fun hv => absurd hv hvalid⟩
        separator := fun hk => by cases hk
        listRef := fun _ => ⟨name, congrArg _ htake, hname⟩ }

theorem next?_munched (h : t.next? = some (token, u)) : token.Munched t.rest := by
  unfold next? at h
  split at h
  · cases h
  · rename_i c cs hrest
    cases h
    rw [hrest]
    exact munched_lexeme t.mode t.offset c cs

/-- Each token of any part of a text is the most that can be made of what is left of the part there. -/
theorem munched_of_mem_within (source : List Char) (start stop : Nat) (mode : Mode) (token : Token)
    (h : token ∈ (within source start stop mode).tokens) :
    token.Munched (Text.slice token.start stop source) := by
  obtain ⟨t, u, hreached, hnext⟩ := exists_next?_of_mem h
  rw [(next?_place hnext).1, ← hreached.rest_eq_slice]
  exact next?_munched hnext

/-- A lone backslash that ends the part, and a separator, of a text that goes on. -/
theorem munched_to_end :
    (⟨.string, 4, ['"', 'a', '\\', '"', '\\']⟩ : Token) ∈
      (within ['-', '-', '-', '\n', '"', 'a', '\\', '"', '\\', '"', 'b'] 0 9 .initial).tokens ∧
    (⟨.string, 4, ['"', 'a', '\\', '"', '\\']⟩ : Token).Munched ['"', 'a', '\\', '"', '\\'] := by
  have h : (⟨.string, 4, ['"', 'a', '\\', '"', '\\']⟩ : Token) ∈
      (within ['-', '-', '-', '\n', '"', 'a', '\\', '"', '\\', '"', 'b'] 0 9 .initial).tokens := by
    decide +kernel
  exact ⟨h, munched_of_mem_within _ 0 9 .initial _ h⟩

end Tokenizer

end VoiceScript
