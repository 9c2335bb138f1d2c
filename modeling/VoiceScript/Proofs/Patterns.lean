import Mathlib.Computability.Language
import VoiceScript.Proofs.LineLocal

namespace VoiceScript

open Computability

namespace Pattern

/-- One character that passes a test. -/
def one (test : Char → Bool) : Language Char :=
  {w | ∃ c, test c = true ∧ w = [c]}

def oneOf (cs : List Char) : Language Char :=
  one fun c => cs.contains c

def noneOf (cs : List Char) : Language Char :=
  one fun c => !cs.contains c

def optional (l : Language Char) : Language Char :=
  1 + l

def whitespace : Language Char :=
  oneOf [' ', '\t', '\r'] * (oneOf [' ', '\t', '\r'])∗

def comment : Language Char :=
  oneOf ['#'] * (noneOf ['\n'])∗

/-- A backslash takes the character after it along, a quote too. The closing quote may be missing. -/
def string : Language Char :=
  oneOf ['"'] * ((noneOf ['"', '\\'] + oneOf ['\\'] * one fun _ => true)∗ *
    (optional (oneOf ['\\']) * optional (oneOf ['"'])))

def number : Language Char :=
  one (fun c => '0' ≤ c && c ≤ '9') * (one fun c => '0' ≤ c && c ≤ '9' || c == '.')∗

def capture : Language Char :=
  oneOf ['<'] * ((noneOf ['>', '\n'])∗ * optional (oneOf ['>']))

def regex : Language Char :=
  oneOf ['^'] * ((noneOf ['$', '\\', '\n'] + oneOf ['\\'] * noneOf ['\n'])∗ *
    (optional (oneOf ['\\']) * optional (oneOf ['$'])))

def path : Language Char :=
  oneOf ['/'] * (one (fun c => Text.isLetter c || Text.isNumeral c || ['.', '_', '-'].contains c) *
    (noneOf ['\n', '"', ')', ','])∗)

def name : Language Char :=
  one (fun c => Text.isLetter c || c == '_') *
    (one fun c => Text.isLetter c || Text.isNumeral c || ['_', '.', '-'].contains c)∗

/-- Three or more dashes, then blanks. -/
def separator : Language Char :=
  oneOf ['-'] * (oneOf ['-'] * (oneOf ['-'] * ((oneOf ['-'])∗ * (oneOf [' ', '\t', '\r'])∗)))

end Pattern

/-- The pattern of a kind. All that is read as a name, keywords too, shares one. The other kinds have none: a
mode decides on them. -/
def TokenKind.pattern? : TokenKind → Option (Language Char)
  | .whitespace => some Pattern.whitespace
  | .newline => some (Pattern.oneOf ['\n'])
  | .comment => some Pattern.comment
  | .string => some Pattern.string
  | .number => some Pattern.number
  | .capture => some Pattern.capture
  | .regex => some Pattern.regex
  | .path => some Pattern.path
  | .actionName | .functionName | .variableRef | .word | .identifier | .keyword _ => some Pattern.name
  | .punct p => some (Pattern.oneOf [p.char])
  | .separator | .listRef | .invalidChar => none

namespace Pattern

/-- The texts of all patterns. -/
def any : Language Char :=
  {w | ∃ kind pattern, TokenKind.pattern? kind = some pattern ∧ w ∈ pattern}

/-- The longest front part of a text that a pattern has. -/
structure Longest (pattern : Language Char) (text w : List Char) : Prop where
  matched : w ∈ pattern
  front : w <+: text
  longest : ∀ v ∈ pattern, v <+: text → v.length ≤ w.length

variable {l m : Language Char} {test test' : Char → Bool} {c : Char} {cs u v w rest : List Char}

theorem mem_one : w ∈ one test ↔ ∃ c, test c = true ∧ w = [c] := Iff.rfl

theorem mem_oneOf_singleton : w ∈ oneOf [c] ↔ w = [c] := by
  simp [oneOf, mem_one]

theorem mem_optional : w ∈ optional l ↔ w = [] ∨ w ∈ l := by
  rw [optional, Language.mem_add, Language.mem_one]

theorem mem_one_mul : w ∈ one test * l ↔ ∃ c v, test c = true ∧ v ∈ l ∧ w = c :: v := by
  rw [Language.mem_mul]
  constructor
  · rintro ⟨_, ⟨c, hc, rfl⟩, v, hv, rfl⟩
    exact ⟨c, v, hc, hv, rfl⟩
  · rintro ⟨c, v, hc, hv, rfl⟩
    exact ⟨[c], ⟨c, hc, rfl⟩, v, hv, rfl⟩

theorem mem_kstar_one : w ∈ (one test)∗ ↔ ∀ c ∈ w, test c = true := by
  rw [Language.mem_kstar]
  constructor
  · rintro ⟨pieces, rfl, hpieces⟩ c hc
    obtain ⟨piece, hp, hmem⟩ := List.mem_flatten.mp hc
    obtain ⟨d, hd, rfl⟩ := hpieces piece hp
    rwa [List.mem_singleton.mp hmem]
  · intro h
    refine ⟨w.map fun c => [c], (List.flatMap_singleton' w).symm, ?_⟩
    intro piece hp
    obtain ⟨c, hc, rfl⟩ := List.mem_map.mp hp
    exact ⟨c, h c hc, rfl⟩

/-- What holds of the ends, and of a text with a piece in front if it holds of the text, holds of all pieces
followed by an end. -/
theorem kstar_mul_induction {motive : List Char → Prop} (ends : ∀ v ∈ m, motive v)
    (piece : ∀ u ∈ l, ∀ v, motive v → motive (u ++ v)) : ∀ w ∈ l∗ * m, motive w := by
  intro w hw
  obtain ⟨_, ⟨pieces, rfl, hpieces⟩, v, hv, rfl⟩ := Language.mem_mul.mp hw
  induction pieces with
  | nil => exact ends v hv
  | cons u pieces ih =>
    obtain ⟨hu, hrest⟩ := List.forall_mem_cons.mp hpieces
    rw [List.flatten_cons, List.append_assoc]
    exact piece u hu _ (ih hrest (Language.append_mem_mul (Language.join_mem_kstar hrest) hv))

theorem mem_kstar_mul (h : w ∈ m) : w ∈ l∗ * m :=
  Language.append_mem_mul (Language.nil_mem_kstar l) h

theorem append_mem_kstar_mul (hu : u ∈ l) (hv : v ∈ l∗ * m) : u ++ v ∈ l∗ * m := by
  obtain ⟨_, ⟨pieces, rfl, hpieces⟩, e, he, rfl⟩ := Language.mem_mul.mp hv
  rw [← List.append_assoc, ← List.flatten_cons]
  exact Language.append_mem_mul (Language.join_mem_kstar (List.forall_mem_cons.mpr ⟨hu, hpieces⟩)) he

theorem Longest.one_mul (hc : test c = true) (h : Longest l cs w) :
    Longest (one test * l) (c :: cs) (c :: w) where
  matched := mem_one_mul.mpr ⟨c, w, hc, h.matched, rfl⟩
  front := List.cons_prefix_cons.mpr ⟨rfl, h.front⟩
  longest := by
    intro v hv hfront
    obtain ⟨d, ds, _, hds, rfl⟩ := mem_one_mul.mp hv
    exact Nat.succ_le_succ (h.longest ds hds (List.cons_prefix_cons.mp hfront).2)

theorem Longest.one (hc : test c = true) (cs : List Char) : Longest (one test) (c :: cs) [c] where
  matched := ⟨c, hc, rfl⟩
  front := ⟨cs, rfl⟩
  longest := by
    rintro _ ⟨d, _, rfl⟩ _
    exact Nat.le_refl _

/-- A way to measure how far a pattern goes finds the longest front part if what it takes is in the pattern, and
no text of the pattern goes further. -/
theorem longest_take {tail : List Char → Nat} (hmem : cs.take (tail cs) ∈ l)
    (hbound : ∀ v ∈ l, ∀ rest, v.length ≤ tail (v ++ rest)) : Longest l cs (cs.take (tail cs)) where
  matched := hmem
  front := List.take_prefix _ _
  longest := by
    rintro v hv ⟨rest, rfl⟩
    rw [List.length_take, List.length_append]
    exact Nat.le_min.mpr ⟨hbound v hv rest, Nat.le_add_right _ _⟩

end Pattern

namespace Lexeme

open Pattern

variable {test : Char → Bool} {c d : Char} {cs : List Char}

theorem oneOf_blanks : oneOf [' ', '\t', '\r'] = one isHorizontal := by
  rw [oneOf]
  congr 1
  funext c
  exact Bool.eq_iff_iff.mpr (by simp [isHorizontal, or_assoc])

theorem whitespace_eq : Pattern.whitespace = one isHorizontal * (one isHorizontal)∗ := by
  rw [Pattern.whitespace, oneOf_blanks]

theorem comment_eq : Pattern.comment = oneOf ['#'] * (one (· != '\n'))∗ := by
  have hrest : (fun c => !(['\n'].contains c)) = (· != '\n') := by
    funext c
    exact Bool.eq_iff_iff.mpr (by simp)
  rw [Pattern.comment, noneOf, hrest]

theorem path_eq : Pattern.path = oneOf ['/'] * (one isNamePart * (one isPathPart)∗) := by
  have hfirst : (fun c => Text.isLetter c || Text.isNumeral c || ['.', '_', '-'].contains c) =
      isNamePart := by
    funext c
    rw [Bool.eq_iff_iff]
    simp only [isNamePart, Bool.or_eq_true, List.contains_cons, List.contains_nil, Bool.or_false]
    tauto
  have hrest : (fun c => !(['\n', '"', ')', ','].contains c)) = isPathPart := by
    funext c
    exact Bool.eq_iff_iff.mpr (by simp [isPathPart, and_assoc])
  rw [Pattern.path, noneOf, hfirst, hrest]

theorem name_eq : Pattern.name = one isNameStart * (one isNamePart)∗ := by
  have hfirst : (fun c => Text.isLetter c || c == '_') = isNameStart := by
    funext c
    rw [isNameStart, Bool.or_comm]
  have hrest : (fun c => Text.isLetter c || Text.isNumeral c || ['_', '.', '-'].contains c) =
      isNamePart := by
    funext c
    rw [Bool.eq_iff_iff]
    simp only [isNamePart, Bool.or_eq_true, List.contains_cons, List.contains_nil, Bool.or_false]
    tauto
  rw [Pattern.name, hfirst, hrest]

theorem take_run (test : Char → Bool) (cs : List Char) : cs.take (run test cs) = cs.takeWhile test :=
  List.prefix_iff_eq_take.mp (List.takeWhile_prefix test) |>.symm

theorem le_run (v rest : List Char) (h : ∀ c ∈ v, test c = true) : v.length ≤ run test (v ++ rest) := by
  rw [run, List.takeWhile_append_of_pos h, List.length_append]
  exact Nat.le_add_right _ _

theorem longest_run (test : Char → Bool) (cs : List Char) :
    Longest (one test)∗ cs (cs.take (run test cs)) := by
  apply longest_take
  · rw [take_run, mem_kstar_one]
    exact fun c hc => List.all_eq_true.mp List.all_takeWhile c hc
  · intro v hv rest
    exact le_run v rest (mem_kstar_one.mp hv)

/-- A piece in front of what a pattern goes over, where the measure counts the characters of the piece. -/
theorem take_append_mem {l m : Language Char} {u : List Char} {n : Nat} (hu : u ∈ l)
    (h : cs.take n ∈ l∗ * m) : (u ++ cs).take (u.length + n) ∈ l∗ * m := by
  rw [List.take_length_add_append]
  exact append_mem_kstar_mul hu h

theorem mem_ends {a b : Char} {w : List Char} :
    w ∈ optional (oneOf [a]) * optional (oneOf [b]) ↔ w = [] ∨ w = [a] ∨ w = [b] ∨ w = [a, b] := by
  simp only [Language.mem_mul, mem_optional, mem_oneOf_singleton]
  constructor
  · rintro ⟨_, rfl | rfl, _, rfl | rfl, rfl⟩ <;> simp
  · rintro (rfl | rfl | rfl | rfl)
    · exact ⟨[], .inl rfl, [], .inl rfl, rfl⟩
    · exact ⟨[a], .inr rfl, [], .inl rfl, rfl⟩
    · exact ⟨[], .inl rfl, [b], .inr rfl, rfl⟩
    · exact ⟨[a], .inr rfl, [b], .inr rfl, rfl⟩

theorem captureTail_cons (hc : c ∉ ['>', '\n']) (cs : List Char) :
    captureTail (c :: cs) = 1 + captureTail cs := by
  rw [captureTail]
  all_goals simp_all

theorem longest_captureTail (cs : List Char) :
    Longest ((noneOf ['>', '\n'])∗ * optional (oneOf ['>'])) cs (cs.take (captureTail cs)) := by
  apply longest_take
  · fun_induction captureTail cs with
    | case1 => exact mem_kstar_mul (mem_optional.mpr (.inl rfl))
    | case2 cs => exact mem_kstar_mul (mem_optional.mpr (.inr (mem_oneOf_singleton.mpr rfl)))
    | case3 cs => exact mem_kstar_mul (mem_optional.mpr (.inl rfl))
    | case4 c cs hclose hnewline ih => exact take_append_mem (u := [c]) ⟨c, by simp_all, rfl⟩ ih
  · apply kstar_mul_induction (motive := fun v => ∀ rest, v.length ≤ captureTail (v ++ rest))
    · intro v hv rest
      rcases mem_optional.mp hv with rfl | hv
      · exact Nat.zero_le _
      · rw [mem_oneOf_singleton.mp hv]
        exact Nat.le_refl _
    · rintro _ ⟨c, hc, rfl⟩ v ih rest
      have := ih rest
      rw [List.singleton_append, List.cons_append, captureTail_cons (by simpa using hc), List.length_cons]
      omega

theorem stringTail_cons (hc : c ∉ ['"', '\\']) (cs : List Char) :
    stringTail (c :: cs) = 1 + stringTail cs := by
  rw [stringTail]
  all_goals simp_all

/-- A string goes on in pairs after each backslash. To read the last backslash alone, with a quote after it, never
goes further. -/
theorem longest_stringTail (cs : List Char) :
    Longest ((noneOf ['"', '\\'] + oneOf ['\\'] * one fun _ => true)∗ *
      (optional (oneOf ['\\']) * optional (oneOf ['"']))) cs (cs.take (stringTail cs)) := by
  apply longest_take
  · fun_induction stringTail cs with
    | case1 => exact mem_kstar_mul (mem_ends.mpr (by simp))
    | case2 cs => exact mem_kstar_mul (mem_ends.mpr (by simp))
    | case3 d cs ih =>
      refine take_append_mem (u := ['\\', d]) (.inr ?_) ih
      exact mem_one_mul.mpr ⟨'\\', [d], rfl, ⟨d, rfl, rfl⟩, rfl⟩
    | case4 c cs hquote hescape ih =>
      by_cases hc : c = '\\'
      · cases cs with
        | nil => exact mem_kstar_mul (mem_ends.mpr (by simp [hc, stringTail]))
        | cons d ds => exact (hescape d ds hc rfl).elim
      · exact take_append_mem (u := [c]) (.inl ⟨c, by simp_all, rfl⟩) ih
  · apply kstar_mul_induction (motive := fun v => ∀ rest, v.length ≤ stringTail (v ++ rest))
    · intro v hv rest
      rcases mem_ends.mp hv with rfl | rfl | rfl | rfl
      · exact Nat.zero_le _
      · exact stringTail_cons_pos '\\' rest
      · exact Nat.le_refl _
      · rw [List.cons_append, List.cons_append, stringTail]
        exact Nat.le_add_right _ _
    · rintro u (⟨c, hc, rfl⟩ | hu) v ih rest
      · have := ih rest
        rw [List.singleton_append, List.cons_append, stringTail_cons (by simpa using hc), List.length_cons]
        omega
      · obtain ⟨c, _, hc, ⟨d, _, rfl⟩, rfl⟩ := mem_one_mul.mp hu
        have := ih rest
        obtain rfl : c = '\\' := by simpa using hc
        simp only [List.cons_append, List.nil_append, stringTail, List.length_cons]
        omega

theorem regexTail_cons (hc : c ∉ ['$', '\\', '\n']) (cs : List Char) :
    regexTail (c :: cs) = 1 + regexTail cs := by
  rw [regexTail]
  all_goals simp_all

theorem regexTail_pair (hd : d ≠ '\n') (cs : List Char) :
    regexTail ('\\' :: d :: cs) = 2 + regexTail cs := by
  rw [regexTail]
  exact hd

theorem regexTail_backslash (cs : List Char) : 0 < regexTail ('\\' :: cs) := by
  cases cs with
  | nil => decide
  | cons d cs =>
    by_cases hd : d = '\n'
    · subst d
      exact Nat.zero_lt_one
    · rw [regexTail_pair hd]
      omega

theorem longest_regexTail (cs : List Char) :
    Longest ((noneOf ['$', '\\', '\n'] + oneOf ['\\'] * noneOf ['\n'])∗ *
      (optional (oneOf ['\\']) * optional (oneOf ['$']))) cs (cs.take (regexTail cs)) := by
  apply longest_take
  · fun_induction regexTail cs with
    | case1 => exact mem_kstar_mul (mem_ends.mpr (by simp))
    | case2 cs => exact mem_kstar_mul (mem_ends.mpr (by simp))
    | case3 cs => exact mem_kstar_mul (mem_ends.mpr (by simp))
    | case4 cs => exact mem_kstar_mul (mem_ends.mpr (by simp))
    | case5 d cs hd ih =>
      refine take_append_mem (u := ['\\', d]) (.inr ?_) ih
      exact mem_one_mul.mpr ⟨'\\', [d], rfl, ⟨d, by simpa using hd, rfl⟩, rfl⟩
    | case6 c cs hdollar hnewline hescaped hescape ih =>
      by_cases hc : c = '\\'
      · cases cs with
        | nil => exact mem_kstar_mul (mem_ends.mpr (by simp [hc, regexTail]))
        | cons d ds => exact (hescape d ds hc rfl).elim
      · exact take_append_mem (u := [c]) (.inl ⟨c, by simp_all, rfl⟩) ih
  · apply kstar_mul_induction (motive := fun v => ∀ rest, v.length ≤ regexTail (v ++ rest))
    · intro v hv rest
      rcases mem_ends.mp hv with rfl | rfl | rfl | rfl
      · exact Nat.zero_le _
      · exact regexTail_backslash rest
      · exact Nat.le_refl _
      · rw [List.cons_append, List.cons_append, regexTail_pair (by decide)]
        exact Nat.le_add_right _ _
    · rintro u (⟨c, hc, rfl⟩ | hu) v ih rest
      · have := ih rest
        rw [List.singleton_append, List.cons_append, regexTail_cons (by simpa using hc), List.length_cons]
        omega
      · obtain ⟨c, _, hc, ⟨d, hd, rfl⟩, rfl⟩ := mem_one_mul.mp hu
        have := ih rest
        obtain rfl : c = '\\' := by simpa using hc
        rw [List.cons_append, List.cons_append, List.nil_append, List.cons_append, List.cons_append,
          regexTail_pair (by simpa using hd), List.length_cons, List.length_cons]
        omega

end Lexeme

end VoiceScript
