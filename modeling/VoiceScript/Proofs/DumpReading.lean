import VoiceScript.Dump
import VoiceScript.Proofs.Lossless

namespace VoiceScript

namespace Text

variable {cs : List Char} {c : Char} {n : Nat}

/-- Where a reader of quoted texts stands. -/
inductive Cursor where
  | outside
  | inside
  /-- Behind a backslash. -/
  | escaped
  /-- Before the brace that opens a code point. -/
  | opened
  /-- Among the digits of a code point, with the number that they have come to. -/
  | digits (n : Nat)

/-- The value of a lower-case hexadecimal digit. -/
def hexValue (c : Char) : Nat :=
  if c.isDigit then c.toNat - '0'.toNat else c.toNat - 'a'.toNat + 10

/-- What a character says behind a backslash. -/
def unescape : Char → Char
  | 'n' => '\n'
  | 'r' => '\r'
  | 't' => '\t'
  | '0' => '\x00'
  | c => c

/-- The quoted texts of a text, put together. What stands between them is passed over. -/
def unquote : Cursor → List Char → List Char
  | _, [] => []
  | .outside, c :: cs => if c = '"' then unquote .inside cs else unquote .outside cs
  | .inside, c :: cs =>
    if c = '"' then unquote .outside cs
    else if c = '\\' then unquote .escaped cs
    else c :: unquote .inside cs
  | .escaped, c :: cs => if c = 'u' then unquote .opened cs else unescape c :: unquote .inside cs
  | .opened, _ :: cs => unquote (.digits 0) cs
  | .digits n, c :: cs =>
    if c = '\x7d' then Char.ofNat n :: unquote .inside cs
    else unquote (.digits (16 * n + hexValue c)) cs

theorem hexValue_digitChar (h : n < 16) : hexValue n.digitChar = n := by
  have hall : ∀ n < 16, hexValue n.digitChar = n := by decide
  exact hall n h

theorem unquote_digitChar (m : Nat) (h : n < 16) (rest : List Char) :
    unquote (.digits m) (n.digitChar :: rest) = unquote (.digits (16 * m + n)) rest := by
  have hne : n.digitChar ≠ '\x7d' := Nat.digitChar_ne _ (by decide)
  rw [unquote, if_neg hne, hexValue_digitChar h]

/-- The digits of a number come to that number. -/
theorem unquote_toDigits (n : Nat) (rest : List Char) :
    unquote (.digits 0) (Nat.toDigits 16 n ++ rest) = unquote (.digits n) rest := by
  induction n using Nat.strongRecOn generalizing rest with
  | ind n ih =>
    rcases Nat.lt_or_ge n 16 with hn | hn
    · rw [Nat.toDigits_of_lt_base hn, List.singleton_append, unquote_digitChar 0 hn, Nat.mul_zero,
        Nat.zero_add]
    · have hlast : n % 16 < 16 := Nat.mod_lt n (by decide)
      rw [Nat.toDigits_of_base_le (by decide) hn, List.append_assoc, List.singleton_append,
        ih (n / 16) (by omega), unquote_digitChar _ hlast, Nat.div_add_mod]

theorem unquote_unicodeEscape (c : Char) (rest : List Char) :
    unquote .inside (unicodeEscape c ++ rest) = c :: unquote .inside rest := by
  have hopen : unquote .inside (unicodeEscape c ++ rest) =
      unquote (.digits 0) (Nat.toDigits 16 c.toNat ++ '\x7d' :: rest) := by
    rw [unicodeEscape, List.append_assoc, List.append_assoc]
    rfl
  rw [hopen, unquote_toDigits, unquote, if_pos rfl, Char.ofNat_toNat]

/-- Whatever way a character is written in a quoted text, it is read as that character. -/
theorem unquote_escape (c : Char) (rest : List Char) :
    unquote .inside (escape c ++ rest) = c :: unquote .inside rest := by
  fun_cases escape c with
  | case1 h =>
    rcases h with rfl | rfl
    · rfl
    · rfl
  | case2 _ h =>
    rw [h]
    rfl
  | case3 _ _ h =>
    rw [h]
    rfl
  | case4 _ _ _ h =>
    rw [h]
    rfl
  | case5 _ _ _ _ h =>
    rw [h]
    rfl
  | case6 => exact unquote_unicodeEscape c rest
  | case7 h =>
    obtain ⟨hquote, hbackslash⟩ := not_or.mp h
    rw [List.singleton_append, unquote, if_neg hquote, if_neg hbackslash]

theorem unquote_flatMap_escape (cs rest : List Char) :
    unquote .inside (cs.flatMap escape ++ rest) = cs ++ unquote .inside rest := by
  induction cs with
  | nil => rfl
  | cons c cs ih => rw [List.flatMap_cons, List.append_assoc, unquote_escape, ih, List.cons_append]

theorem unquote_quoted (cs rest : List Char) :
    unquote .outside (quoted cs ++ rest) = cs ++ unquote .outside rest := by
  have hopen : unquote .outside (quoted cs ++ rest) =
      unquote .inside (cs.flatMap escape ++ '"' :: rest) := by
    rw [quoted, List.cons_append, List.append_assoc]
    rfl
  rw [hopen, unquote_flatMap_escape]
  rfl

theorem unquote_outside (h : '"' ∉ cs) (rest : List Char) :
    unquote .outside (cs ++ rest) = unquote .outside rest := by
  induction cs with
  | nil => rfl
  | cons c cs ih =>
    obtain ⟨hc, hcs⟩ := List.ne_and_not_mem_of_not_mem_cons h
    rw [List.cons_append, unquote, if_neg (Ne.symm hc), ih hcs]

theorem quote_not_mem_decimal (n : Nat) : '"' ∉ decimal n := by
  intro h
  have hdigit := Nat.isDigit_of_mem_toDigits (by decide) (by decide) h
  cases hdigit

end Text

namespace Dump

open Text

variable {o : Options} {cs : List Char}

theorem quote_not_mem_name (kind : Kind) : '"' ∉ kind.name.toList := by
  cases kind with
  | node kind => cases kind <;> decide
  | token kind =>
    cases kind with
    | keyword keyword => cases keyword <;> decide
    | punct punct => cases punct <;> decide
    | _ => decide

theorem quote_not_mem_place (o : Options) (span : Span) : '"' ∉ place o span := by
  unfold place
  split
  · simp [quote_not_mem_decimal]
  · exact List.not_mem_nil

theorem unquote_indent (depth : Nat) (rest : List Char) :
    unquote .outside (List.replicate (2 * depth) ' ' ++ rest) = unquote .outside rest := by
  apply unquote_outside
  intro h
  cases List.eq_of_mem_replicate h

theorem unquote_tokenLine (o : Options) (depth : Nat) (token : Token) (rest : List Char) :
    unquote .outside (tokenLine o depth token ++ rest) = token.text ++ unquote .outside rest := by
  have hname : '"' ∉ token.kind.name.toList := quote_not_mem_name (.token token.kind)
  simp only [tokenLine, line, List.append_assoc, List.cons_append]
  rw [unquote_indent, unquote_outside hname, unquote_outside (quote_not_mem_place o token.span), unquote,
    if_neg (by decide), unquote_quoted]
  rfl

theorem unquote_nodeLine (o : Options) (depth : Nat) (kind : NodeKind) (span : Span)
    (rest : List Char) :
    unquote .outside (line depth (kind.name.toList ++ place o span) ++ rest) =
      unquote .outside rest := by
  have hname : '"' ∉ kind.name.toList := quote_not_mem_name (.node kind)
  simp only [line, List.append_assoc]
  rw [unquote_indent, unquote_outside hname, unquote_outside (quote_not_mem_place o span)]
  rfl

mutual

theorem unquote_tree (ht : o.trivia = true) (depth : Nat) (t : Tree) (rest : List Char) :
    unquote .outside (tree o depth t ++ rest) = t.text ++ unquote .outside rest := by
  match t with
  | .leaf token =>
    rw [tree, ht, Bool.true_or, if_pos rfl, unquote_tokenLine]
    simp [Tree.text]
  | .node kind children =>
    rw [tree, List.append_assoc, unquote_nodeLine, unquote_trees ht (depth + 1) children rest]
    rfl

/-- The texts that are read in a row of trees with trivia are those of the tokens, one after the other. -/
theorem unquote_trees (ht : o.trivia = true) (depth : Nat) (ts : List Tree) (rest : List Char) :
    unquote .outside (trees o depth ts ++ rest) =
      Token.spelling (Tree.leavesAll ts) ++ unquote .outside rest := by
  match ts with
  | [] => rfl
  | t :: ts =>
    rw [trees, List.append_assoc, unquote_tree ht depth t, unquote_trees ht depth ts rest,
      Tree.leavesAll_cons, Token.spelling_append, List.append_assoc]
    rfl

end

end Dump

theorem unquote_dump (spans : Bool) (t : Tree) :
    Text.unquote .outside (dump ⟨true, true, spans⟩ t) = t.text := by
  have hread := Dump.unquote_tree (o := ⟨true, true, spans⟩) rfl 0 t []
  rwa [List.append_nil, Text.unquote, List.append_nil] at hread

/-- What is read in a dump of the whole tree with trivia is the source. So two sources with the same dump are
the same, with places and without. -/
theorem dump_tells_source (spans : Bool) :
    (∀ source, ∃ parsed, parse source = .ok parsed ∧
      Text.unquote .outside (dump ⟨true, true, spans⟩ parsed.tree) = source) ∧
    ∀ source source', ∃ parsed parsed', parse source = .ok parsed ∧ parse source' = .ok parsed' ∧
      (dump ⟨true, true, spans⟩ parsed.tree = dump ⟨true, true, spans⟩ parsed'.tree ↔
        source = source') := by
  have hread : ∀ source, ∃ parsed, parse source = .ok parsed ∧
      Text.unquote .outside (dump ⟨true, true, spans⟩ parsed.tree) = source := by
    intro source
    obtain ⟨children, diagnostics, hparse, hleaves⟩ := exists_parse source
    refine ⟨_, hparse, ?_⟩
    rw [unquote_dump, Tree.text, Tree.leaves_node, hleaves, spelling_tokenize]
  refine ⟨hread, ?_⟩
  intro source source'
  obtain ⟨parsed, hparse, hsource⟩ := hread source
  obtain ⟨parsed', hparse', hsource'⟩ := hread source'
  refine ⟨parsed, parsed', hparse, hparse', ?_⟩
  constructor
  · intro hdump
    rw [← hsource, ← hsource', hdump]
  · rintro rfl
    rw [hparse] at hparse'
    cases hparse'
    rfl

/-- A text that looks like the line of another token is a text all the same. -/
example : Text.unquote .outside (Text.quoted "\"\n  Colon \":\"\\u\x7b3a\x7d\x0b".toList) =
    "\"\n  Colon \":\"\\u\x7b3a\x7d\x0b".toList := by
  decide +kernel

end VoiceScript
