import VoiceScript.Proofs.FoldEnds
import VoiceScript.Proofs.LiteralEnds
import VoiceScript.Proofs.Views

namespace VoiceScript

open Computability

namespace Text

/-- The blank characters, one by one. -/
def blanks : List Char :=
  blankRanges.rows.flatMap fun r => (List.range' r.1 (r.2 + 1 - r.1)).map Char.ofNat

variable {c : Char}

theorem mem_blanks_of_isBlank (h : isBlank c = true) : c ∈ blanks := by
  obtain ⟨r, hr, hlow, hhigh⟩ := blankRanges.contains_iff.mp h
  refine List.mem_flatMap.mpr ⟨r, hr, List.mem_map.mpr ⟨c.toNat, ?_, Char.ofNat_toNat c⟩⟩
  rw [List.mem_range'_1]
  omega

/-- What passes a test that no blank passes is no blank. -/
theorem isBlank_eq_false {test : Char → Bool} (hc : test c = true)
    (h : blanks.any test = false) : isBlank c = false := by
  apply Bool.eq_false_iff.mpr
  intro hblank
  have hany : blanks.any test = true := List.any_eq_true.mpr ⟨c, mem_blanks_of_isBlank hblank, hc⟩
  rw [h] at hany
  cases hany

end Text

open Text

namespace Pattern

variable {test test' : Char → Bool} {l : Language Char} {w : List Char}

theorem isBlank_head?_of_one_mul (h : w ∈ one test * l) (ht : blanks.any test = false) :
    ∀ c ∈ w.head?, isBlank c = false := by
  obtain ⟨d, v, hd, _, rfl⟩ := mem_one_mul.mp h
  intro c hc
  cases hc
  exact isBlank_eq_false hd ht

theorem isBlank_of_one_mul (h : w ∈ one test * (one test')∗) (ht : blanks.any test = false)
    (ht' : blanks.any test' = false) : ∀ c ∈ w, isBlank c = false := by
  obtain ⟨d, v, hd, hv, rfl⟩ := mem_one_mul.mp h
  intro c hc
  rcases List.mem_cons.mp hc with rfl | hc
  · exact isBlank_eq_false hd ht
  · exact isBlank_eq_false (mem_kstar_one.mp hv c hc) ht'

theorem isBlank_of_mem_number (h : w ∈ number) : ∀ c ∈ w, isBlank c = false :=
  isBlank_of_one_mul h (by decide +kernel) (by decide +kernel)

theorem isBlank_of_mem_name (h : w ∈ name) : ∀ c ∈ w, isBlank c = false :=
  isBlank_of_one_mul h (by decide +kernel) (by decide +kernel)

end Pattern

namespace TokenKind

variable {kind : TokenKind} {d : Delimiters} {w : List Char}

theorem isBlank_delimiters (h : kind.delimiters? = some d) :
    isBlank d.opening = false ∧ isBlank d.closing = false := by
  cases kind <;> cases h <;> decide

/-- The kinds of which no text has a blank. -/
def isSolid : TokenKind → Bool
  | .number | .actionName | .functionName | .variableRef | .word | .identifier | .keyword _ | .punct _ => true
  | _ => false

theorem exists_pattern_of_isSolid (h : kind.isSolid = true) : ∃ pattern, kind.pattern? = some pattern ∧
    ∀ w ∈ pattern, ∀ c ∈ w, isBlank c = false := by
  cases kind with
  | number => exact ⟨_, rfl, fun _ => Pattern.isBlank_of_mem_number⟩
  | actionName | functionName | variableRef | word | identifier | keyword =>
    exact ⟨_, rfl, fun _ => Pattern.isBlank_of_mem_name⟩
  | punct p =>
    refine ⟨_, rfl, ?_⟩
    intro w hw
    rw [Pattern.mem_oneOf_singleton.mp hw, List.forall_mem_singleton]
    cases p <;> decide
  | _ => cases h

end TokenKind

namespace Token

/-- A blank that starts no token. -/
def IsBlank (token : Token) : Prop :=
  token.kind = .invalidChar ∧ ∃ c, token.text = [c] ∧ Text.isBlank c = true

/-- A path, or a literal without an end, that goes on to a blank. -/
def TrailsOff (token : Token) : Prop :=
  (token.kind = .path ∨ Literal.unclosed? token ≠ none) ∧
    ∃ c, token.text.getLast? = some c ∧ Text.isBlank c = true

variable {source : List Char} {token : Token}

theorem exists_munched (h : token ∈ tokenize source) : ∃ rest, token.Munched rest := by
  obtain ⟨t, u, _, hnext⟩ := Tokenizer.exists_next?_of_mem h
  exact ⟨_, Tokenizer.next?_munched hnext⟩

theorem exists_text_eq (h : token ∈ tokenize source) (hk : token.kind = .invalidChar) :
    ∃ c, token.text = [c] := by
  obtain ⟨rest, hmunched⟩ := exists_munched h
  exact hmunched.single hk

theorem isBlank_of_isSolid (h : token ∈ tokenize source) (hs : token.kind.isSolid = true) :
    ∀ c ∈ token.text, Text.isBlank c = false := by
  obtain ⟨pattern, hk, hpattern⟩ := TokenKind.exists_pattern_of_isSolid hs
  exact hpattern _ (Tokenizer.text_mem_pattern h hk)

theorem isBlank_head? (h : token ∈ tokenize source) (ht : token.isTrivia = false)
    (hn : token.kind ≠ .newline) (hv : token.kind ≠ .invalidChar) :
    ∀ c ∈ token.text.head?, Text.isBlank c = false := by
  obtain ⟨rest, hmunched⟩ := exists_munched h
  have htext : ∀ pattern, token.kind.pattern? = some pattern → token.text ∈ pattern :=
    fun _ => Tokenizer.text_mem_pattern h
  have hsolid := fun hs c hc => isBlank_of_isSolid h hs c (List.mem_of_mem_head? hc)
  cases hkind : token.kind with
  | whitespace | comment => simp [isTrivia, TokenKind.isTrivia, hkind] at ht
  | newline => exact absurd hkind hn
  | invalidChar => exact absurd hkind hv
  | string | capture | regex | path =>
    rw [hkind] at htext
    exact Pattern.isBlank_head?_of_one_mul (htext _ rfl) (by decide +kernel)
  | separator =>
    exact Pattern.isBlank_head?_of_one_mul (hmunched.separator hkind).1.matched (by decide +kernel)
  | listRef =>
    obtain ⟨name, hname, _⟩ := hmunched.listRef hkind
    rw [hname]
    rintro c ⟨⟩
    decide
  | _ => exact hsolid (by rw [hkind]; rfl)

theorem isBlank_getLast?_of_literal {d : Delimiters} (h : token ∈ tokenize source)
    (hd : token.kind.delimiters? = some d) (hclosed : Literal.unclosed? token = none) :
    ∀ c ∈ token.text.getLast?, Text.isBlank c = false := by
  have hliteral := Literal.delimited h hd
  obtain ⟨inner, htext, _⟩ := hliteral.closed_iff.mp (hliteral.reported_iff.mp hclosed)
  rw [htext, List.getLast?_concat]
  rintro c ⟨⟩
  exact (TokenKind.isBlank_delimiters hd).2

theorem isBlank_getLast? (h : token ∈ tokenize source) (ht : token.isTrivia = false)
    (hn : token.kind ≠ .newline) (hs : token.kind ≠ .separator) (hv : token.kind ≠ .invalidChar)
    (hpath : token.kind ≠ .path) (hclosed : Literal.unclosed? token = none) :
    ∀ c ∈ token.text.getLast?, Text.isBlank c = false := by
  obtain ⟨rest, hmunched⟩ := exists_munched h
  have hsolid := fun hs c hc => isBlank_of_isSolid h hs c (List.mem_of_getLast? hc)
  cases hkind : token.kind with
  | whitespace | comment => simp [isTrivia, TokenKind.isTrivia, hkind] at ht
  | newline => exact absurd hkind hn
  | separator => exact absurd hkind hs
  | invalidChar => exact absurd hkind hv
  | path => exact absurd hkind hpath
  | string | capture | regex => exact isBlank_getLast?_of_literal h (by rw [hkind]; rfl) hclosed
  | listRef =>
    obtain ⟨name, hname, _⟩ := hmunched.listRef hkind
    rw [hname, List.getLast?_concat]
    rintro c ⟨⟩
    decide
  | _ => exact hsolid (by rw [hkind]; rfl)

/-- Whether a token of the grammar starts with a blank. -/
theorem starts_with_blank_iff (h : token ∈ tokenize source) (ht : token.isTrivia = false)
    (hn : token.kind ≠ .newline) :
    (∃ c, token.text.head? = some c ∧ Text.isBlank c = true) ↔ token.IsBlank := by
  constructor
  · rintro ⟨c, hc, hblank⟩
    by_cases hv : token.kind = .invalidChar
    · obtain ⟨d, htext⟩ := exists_text_eq h hv
      obtain rfl : d = c := by simpa [htext] using hc
      exact ⟨hv, d, htext, hblank⟩
    · rw [isBlank_head? h ht hn hv c hc] at hblank
      cases hblank
  · rintro ⟨_, c, htext, hblank⟩
    exact ⟨c, by rw [htext]; rfl, hblank⟩

/-- Whether a token of the grammar ends with a blank. -/
theorem ends_with_blank_iff (h : token ∈ tokenize source) (ht : token.isTrivia = false)
    (hn : token.kind ≠ .newline) (hs : token.kind ≠ .separator) :
    (∃ c, token.text.getLast? = some c ∧ Text.isBlank c = true) ↔ token.IsBlank ∨ token.TrailsOff := by
  constructor
  · rintro ⟨c, hc, hblank⟩
    by_cases hv : token.kind = .invalidChar
    · obtain ⟨d, htext⟩ := exists_text_eq h hv
      obtain rfl : d = c := by simpa [htext] using hc
      exact .inl ⟨hv, d, htext, hblank⟩
    · by_cases hloose : token.kind = .path ∨ Literal.unclosed? token ≠ none
      · exact .inr ⟨hloose, c, hc, hblank⟩
      · obtain ⟨hpath, hclosed⟩ := not_or.mp hloose
        rw [isBlank_getLast? h ht hn hs hv hpath (not_not.mp hclosed) c hc] at hblank
        cases hblank
  · rintro (⟨_, c, htext, hblank⟩ | ⟨_, hblank⟩)
    · exact ⟨c, by rw [htext]; rfl, hblank⟩
    · exact hblank

variable {before between after tokens : List Token}

theorem head?_spelling (h : tokens.head? = some token) (hne : token.text ≠ []) :
    (spelling tokens).head? = token.text.head? := by
  obtain ⟨rest, rfl⟩ := List.head?_eq_some_iff.mp h
  rw [spelling_cons, List.head?_append_of_ne_nil _ hne]

theorem getLast?_spelling (h : tokens.getLast? = some token) (hne : token.text ≠ []) :
    (spelling tokens).getLast? = token.text.getLast? := by
  obtain ⟨front, rfl⟩ := List.getLast?_eq_some_iff.mp h
  rw [spelling_append, spelling_cons, spelling_nil, List.append_nil, List.getLast?_append_of_ne_nil _ hne]

/-- Where tokens that follow one another start and end. -/
theorem extent_of_split (h : tokenize source = before ++ between ++ after) (hne : between ≠ []) :
    Tree.extent between = some ⟨Text.byteLength (spelling before),
      Text.byteLength (spelling before) + Text.byteLength (spelling between)⟩ := by
  have hplaces := tokenize_consecutive source
  rw [h] at hplaces
  obtain ⟨first, rest, hfirst⟩ := List.exists_cons_of_ne_nil hne
  obtain ⟨front, last, hlast⟩ := (List.eq_nil_or_concat' between).resolve_left hne
  apply Tree.extent_eq_some_iff.mpr
  refine ⟨first, last, by rw [hfirst]; rfl, by rw [hlast, List.getLast?_concat], ?_⟩
  have hstart : first.start = Text.byteLength (spelling before) := by
    rw [hfirst, List.append_assoc, List.cons_append] at hplaces
    rw [hplaces.start_eq, Nat.zero_add]
  have hstop : last.stop = Text.byteLength (spelling before) + Text.byteLength (spelling between) := by
    rw [hlast, ← List.append_assoc, List.append_assoc, List.singleton_append] at hplaces
    rw [stop, hplaces.start_eq, hlast]
    simp [Nat.add_assoc]
  rw [hstart, hstop]

/-- A row of tokens out of another one goes from its first token to its last one in it. -/
theorem exists_between {row : List Token} {first last : Token} (h : row.Sublist tokens)
    (hhead : row.head? = some first) (hlast : row.getLast? = some last) :
    ∃ before between after, tokens = before ++ between ++ after ∧
      between.head? = some first ∧ between.getLast? = some last := by
  obtain ⟨rest, rfl⟩ := List.head?_eq_some_iff.mp hhead
  obtain ⟨front, back, rfl, hfirst, hrest⟩ := List.cons_sublist_iff.mp h
  obtain ⟨before, middle, rfl⟩ := List.append_of_mem hfirst
  cases rest with
  | nil =>
    cases hlast
    exact ⟨before, [first], middle ++ back, by simp, rfl, rfl⟩
  | cons next rest =>
    rw [List.getLast?_cons_cons] at hlast
    obtain ⟨middle', after, rfl⟩ := List.append_of_mem (hrest.subset (List.mem_of_getLast? hlast))
    exact ⟨before, first :: (middle ++ middle') ++ [last], after, by simp, rfl, List.getLast?_concat⟩

end Token

theorem Tree.significant_sublist (trees : List Tree) :
    (significant trees).Sublist (leavesAll trees) := by
  induction trees with
  | nil => exact .slnil
  | cons tree trees ih =>
    cases tree with
    | leaf token =>
      rw [significant_leaf, leavesAll_cons, leaves_leaf, List.singleton_append]
      split
      · exact ih.cons _
      · exact ih.cons_cons _
    | node kind children =>
      rw [significant_node, leavesAll_cons]
      exact ih.trans (List.sublist_append_right _ _)

namespace Header

variable {source : List Char} {h : Header} {first last : Token} {ended : Prop}

theorem value_sublist_significant (h : Header) : h.value.Sublist (Tree.significant h.children) :=
  (List.takeWhile_sublist _).trans ((List.drop_sublist _ _).trans (List.dropWhile_sublist _))

theorem value_sublist (h : Header) : h.value.Sublist h.node.leaves :=
  h.value_sublist_significant.trans (Tree.significant_sublist h.children)

theorem isTrivia_of_mem_value {token : Token} (ht : token ∈ h.value) : token.isTrivia = false := by
  simpa using (List.mem_filter.mp (h.value_sublist_significant.subset ht)).2

/-- A value is on the line of its header. -/
theorem kind_of_mem_value (hshape : Shape.Child ended (.node .header (Tree.withoutTrivia h.children))) :
    ∀ token ∈ h.value, token.kind ≠ .newline ∧ token.kind ≠ .separator := by
  generalize hchildren : Tree.withoutTrivia h.children = trees at hshape
  cases hshape with
  | @header modifiers value tail key colon hm hk hc hv hend =>
    obtain ⟨_, _, _, _, htail, _⟩ := exists_tail_eq hend
    have hs : Tree.significant h.children = modifiers ++ key :: colon :: value ++ tail := by
      rw [Tree.significant_eq, hchildren, Tree.filterMap_token?_map_leaf]
    rw [value_eq hs (fun t ht => (kind_of_front hm hk t ht).1) hc (fun t ht => (hv t ht).1) htail]
    exact hv

/-- The text of a value is what stands from its first token to its last one, whether it is cut from the header
or from the source. -/
theorem exists_between (hwithin : h.node.leaves <:+: tokenize source) (hhead : h.value.head? = some first)
    (hlast : h.value.getLast? = some last) :
    ∃ between, between.head? = some first ∧ between.getLast? = some last ∧
      h.valueText = Token.spelling between ∧
      Text.slice first.start last.stop source = Token.spelling between := by
  obtain ⟨before, after, hsource⟩ := hwithin
  obtain ⟨front, between, back, hleaves, hfirst, hend⟩ := Token.exists_between h.value_sublist hhead hlast
  have hne : between ≠ [] := by
    rintro rfl
    cases hfirst
  have hnode := Token.extent_of_split hsource.symm (by simp [hleaves, hne])
  have hsplit : tokenize source = (before ++ front) ++ between ++ (back ++ after) := by
    rw [← hsource, hleaves]
    simp
  have hbetween := Token.extent_of_split hsplit hne
  have hvalue : Tree.extent h.value = Tree.extent between := by
    rw [Tree.extent, Tree.extent, hhead, hlast, hfirst, hend]
  refine ⟨between, hfirst, hend, ?_, ?_⟩
  · have hstart : h.node.span.start = Text.byteLength (Token.spelling before) := by
      rw [Tree.span, hnode]
      rfl
    rw [valueText, hvalue, hbetween]
    simp only [hstart, Token.spelling_append, Text.byteLength_append]
    rw [Nat.add_assoc, Nat.add_sub_cancel_left, Nat.add_sub_cancel_left, Tree.text, hleaves,
      Token.spelling_append, Token.spelling_append]
    exact Text.slice_append _ _ _
  · rw [Tree.extent_eq_some_iff.mpr ⟨first, last, hfirst, hend, rfl⟩] at hbetween
    obtain ⟨hstart, hstop⟩ := Span.mk.inj (Option.some.inj hbetween)
    have hwhole : source =
        Token.spelling (before ++ front) ++ Token.spelling between ++ Token.spelling (back ++ after) := by
      rw [← Token.spelling_append, ← Token.spelling_append, ← hsplit, spelling_tokenize]
    rw [hstart, hstop]
    conv => lhs; rw [hwhole]
    exact Text.slice_append _ _ _

theorem valueText_of_value_eq_nil (hv : h.value = []) : h.valueText = [] := by
  rw [valueText, hv]
  rfl

/-- The ends of the text of a value are those of its first and its last token. -/
theorem valueText_of_value_ne_nil (hwithin : h.node.leaves <:+: tokenize source) (hv : h.value ≠ []) :
    ∃ first last, h.value.head? = some first ∧ h.value.getLast? = some last ∧
      h.valueText = Text.slice first.start last.stop source ∧
      h.valueText.head? = first.text.head? ∧ h.valueText.getLast? = last.text.getLast? := by
  obtain ⟨first, rest, hfirst⟩ := List.exists_cons_of_ne_nil hv
  obtain ⟨front, last, hlast⟩ := (List.eq_nil_or_concat' h.value).resolve_left hv
  have hhead : h.value.head? = some first := by rw [hfirst, List.head?_cons]
  have hend : h.value.getLast? = some last := by rw [hlast, List.getLast?_concat]
  obtain ⟨between, hbetween, hbetween', htext, hslice⟩ := exists_between hwithin hhead hend
  have hfilled := fun token (ht : token ∈ h.value) =>
    (tokenize_consecutive source).filled token (hwithin.subset (h.value_sublist.subset ht))
  refine ⟨first, last, hhead, hend, htext.trans hslice.symm, ?_, ?_⟩
  · rw [htext, Token.head?_spelling hbetween (hfilled first (List.mem_of_head? hhead))]
  · rw [htext, Token.getLast?_spelling hbetween' (hfilled last (List.mem_of_getLast? hend))]

end Header

theorem File.node_mem_of_mem_headers {tree : Tree} {header : Header}
    (h : header ∈ (File.ofTree tree).headers) : header.node ∈ tree.children := by
  obtain ⟨item, hitem, hview⟩ := List.mem_filterMap.mp h
  cases item with
  | header construct =>
    cases hview
    exact Fold.node_mem_of_mem_items hitem
  | command _ | binding _ => cases hview

/-- The value of a header has no text if it has no tokens. Otherwise its text is the part of the source from the
first of them to the last one. That begins with a blank just where the first token is a blank that starts no
token, and ends with one just where the last token is such a blank, or a path or a literal without an end that
takes the blanks behind it along. -/
theorem header_values (source : List Char) :
    ∃ result, parse source = .ok result ∧ ∀ header ∈ (File.ofTree result.tree).headers,
      (header.value = [] ∧ header.valueText = []) ∨
      ∃ first last, header.value.head? = some first ∧ header.value.getLast? = some last ∧
        header.valueText = Text.slice first.start last.stop source ∧
        ((∃ c, header.valueText.head? = some c ∧ Text.isBlank c = true) ↔ first.IsBlank) ∧
        ((∃ c, header.valueText.getLast? = some c ∧ Text.isBlank c = true) ↔
          last.IsBlank ∨ last.TrailsOff) := by
  obtain ⟨children, diagnostics, hparse, parsed⟩ := exists_parsed source
  refine ⟨_, hparse, ?_⟩
  intro header hheader
  have hnode : header.node ∈ children := File.node_mem_of_mem_headers hheader
  have hwithin := Tree.leaves_isInfix hnode
  rw [parsed.leaves] at hwithin
  obtain ⟨ended, hshape⟩ := parsed.shape.exists_child_of_node hnode
  have hmem := fun token ht => hwithin.subset (header.value_sublist.subset (a := token) ht)
  have hkind := Header.kind_of_mem_value hshape
  by_cases hvalue : header.value = []
  · exact .inl ⟨hvalue, Header.valueText_of_value_eq_nil hvalue⟩
  · obtain ⟨first, last, hfirst, hlast, hslice, hhead, hend⟩ :=
      Header.valueText_of_value_ne_nil hwithin hvalue
    have hf := List.mem_of_head? hfirst
    have hl := List.mem_of_getLast? hlast
    refine .inr ⟨first, last, hfirst, hlast, hslice, ?_, ?_⟩
    · rw [hhead]
      exact Token.starts_with_blank_iff (hmem first hf) (Header.isTrivia_of_mem_value hf) (hkind first hf).1
    · rw [hend]
      exact Token.ends_with_blank_iff (hmem last hl) (Header.isTrivia_of_mem_value hl) (hkind last hl).1
        (hkind last hl).2

/-- A path takes the blank behind it along, and a no-break space is a token of its own. -/
theorem value_not_trimmed :
    (parse "app: /x \n".toList).map (fun result => (File.ofTree result.tree).headers.map Header.valueText) =
      .ok ["/x ".toList] ∧
    (parse "app: \u00a0x".toList).map
        (fun result => (File.ofTree result.tree).headers.map Header.valueText) =
      .ok ["\u00a0x".toList] ∧
    Text.isBlank ' ' = true ∧ Text.isBlank '\u00a0' = true := by
  decide +kernel

end VoiceScript
