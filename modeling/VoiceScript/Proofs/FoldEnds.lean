import VoiceScript.Proofs.Folds
import VoiceScript.Proofs.LineEnds
import VoiceScript.Proofs.Lines
import VoiceScript.Proofs.Scans

namespace VoiceScript

open Computability

namespace Token

/-- A token that lies on both sides of an offset. -/
def Straddles (token : Token) (offset : Nat) : Prop :=
  token.start < offset ∧ offset < token.stop

/-- Trivia that goes on past an offset by a carriage return alone, with the newline right after it. -/
structure TakesReturn (tokens : List Token) (token : Token) (offset : Nat) : Prop where
  trivia : token.isTrivia = true
  start : token.start < offset
  stop : token.stop = offset + 1
  last : token.text.getLast? = some '\r'
  newline : ∃ next ∈ tokens, next.kind = .newline ∧ next.start = token.stop

theorem TakesReturn.straddles {tokens : List Token} {token : Token} {offset : Nat}
    (h : TakesReturn tokens token offset) : token.Straddles offset :=
  ⟨h.start, by rw [h.stop]; exact Nat.lt_succ_self offset⟩

/-- A token starts where the one before it ends. -/
theorem Consecutive.start_eq_stop {n : Nat} {before after : List Token} {a b : Token}
    (h : Consecutive n (before ++ a :: b :: after)) : b.start = a.stop := by
  have ha := h.start_eq
  rw [List.append_cons] at h
  have hb := h.start_eq
  rw [spelling_append, Text.byteLength_append, spelling_cons, spelling_nil, List.append_nil] at hb
  rw [stop]
  omega

instance (token : Token) (offset : Nat) : Decidable (token.Straddles offset) :=
  inferInstanceAs (Decidable (_ ∧ _))

end Token

/-- A character that can neither start a text nor go on in it is not in it. -/
theorem Pattern.not_mem_of_one_mul {test test' : Char → Bool} {c : Char} {w : List Char}
    (h : w ∈ Pattern.one test * (Pattern.one test')∗) (hc : test c = false)
    (hc' : test' c = false) : c ∉ w := by
  obtain ⟨d, v, hd, hv, rfl⟩ := mem_one_mul.mp h
  intro hmem
  rcases List.mem_cons.mp hmem with rfl | hmem
  · rw [hc] at hd
    cases hd
  · have htest := mem_kstar_one.mp hv c hmem
    rw [hc'] at htest
    cases htest

namespace Tokenizer

open Lexeme Pattern

variable {t : Tokenizer} {token : Token} {cs : List Char}

theorem text_mem_pattern {pattern : Language Char} (h : token ∈ t.tokens)
    (hk : token.kind.pattern? = some pattern) : token.text ∈ pattern := by
  obtain ⟨u, v, _, hn⟩ := exists_next?_of_mem h
  have hkind : token.kind ∉ [.invalidChar, .separator, .listRef] := by
    intro hmem
    simp only [List.mem_cons, List.not_mem_nil, or_false] at hmem
    rcases hmem with heq | heq | heq <;> rw [heq] at hk <;> cases hk
  obtain ⟨⟨_, hpattern, htext⟩, _⟩ := (next?_munched hn).longest hkind
  rw [hk] at hpattern
  cases hpattern
  exact htext

theorem kind_of_text (h : token ∈ t.tokens) (htext : token.text = '\n' :: cs) :
    token.kind = .newline := by
  obtain ⟨u, v, _, hn⟩ := exists_next?_of_mem h
  have hrest := next?_text hn
  rw [htext, List.cons_append] at hrest
  unfold next? at hn
  split at hn
  · cases hn
  · rename_i c rest hr
    rw [hr] at hrest
    cases (List.cons.inj hrest).1
    cases hn
    rfl

/-- Trivia stays on its line. -/
theorem newline_not_mem_trivia (h : token ∈ t.tokens) (ht : token.isTrivia = true) :
    '\n' ∉ token.text := by
  have hkinds : token.kind = .whitespace ∨ token.kind = .comment := by
    cases hk : token.kind <;> simp_all [Token.isTrivia, TokenKind.isTrivia]
  rcases hkinds with hk | hk
  · have htext := text_mem_pattern h (by rw [hk]; rfl)
    rw [whitespace_eq] at htext
    exact not_mem_of_one_mul htext rfl rfl
  · have htext := text_mem_pattern h (by rw [hk]; rfl)
    rw [comment_eq] at htext
    exact not_mem_of_one_mul htext rfl rfl

end Tokenizer

namespace Line

open Text

variable {lines : List Line} {line : Line} {n e : Nat} {as bs : List Char}

theorem startOffset_ofOffset_le (lines : List Line) (a : Nat) :
    startOffset lines (ofOffset lines a) ≤ a := by
  fun_induction ofOffset lines a with
  | case1 => exact Nat.zero_le _
  | case2 => exact Nat.zero_le _
  | case3 line next lines a size hsize =>
    rename_i ih
    rw [startOffset_succ]
    omega
  | case4 => exact Nat.zero_le _

theorem contentEnd?_eq_some_iff :
    contentEnd? lines n = some e ↔
      ∃ line, lines[n]? = some line ∧ e = startOffset lines n + byteLength line.content := by
  simp [contentEnd?, eq_comm]

/-- A newline further on than the start of a line stands no further up than the end of its content. -/
theorem contentEnd_le_newline (h : Joinable lines) (he : contentEnd? lines n = some e)
    (hsplit : join lines = as ++ '\n' :: bs) (hstart : startOffset lines n ≤ byteLength as) :
    e ≤ byteLength as := by
  obtain ⟨line, hline, rfl⟩ := contentEnd?_eq_some_iff.mp he
  rw [join_of_getElem? hline, text, List.append_assoc] at hsplit
  obtain ⟨between, rfl, hrest⟩ := exists_of_append_eq hsplit hstart
  rw [byteLength_append, startOffset] at *
  apply Nat.le_of_not_lt
  intro hlt
  obtain ⟨foot, hcontent, hfoot⟩ := exists_of_append_eq hrest.symm (by omega)
  cases foot with
  | nil =>
    rw [hcontent, List.append_nil] at hlt
    omega
  | cons c foot =>
    cases (List.cons.inj hfoot).1
    apply (h.getElem? hline).1
    rw [hcontent]
    simp

end Line

namespace Token

open Text

variable {source : List Char} {token : Token} {n e : Nat}

/-- What the text of a token has before and after an offset inside of it. -/
theorem Straddles.exists_split {as bs : List Char} (ht : token ∈ tokenize source)
    (h : token.Straddles (byteLength as)) (hsource : source = as ++ bs) :
    ∃ before after head foot, tokenize source = before ++ token :: after ∧ foot ≠ [] ∧
      token.text = head ++ foot ∧ bs = foot ++ spelling after ∧
      byteLength as = token.start + byteLength head := by
  obtain ⟨before, after, hsplit, hstart, hplace⟩ := exists_place ht
  rw [hsource] at hplace
  obtain ⟨head, rfl, hrest⟩ :=
    exists_of_append_eq hplace.symm (by rw [← hstart]; exact Nat.le_of_lt h.1)
  have hstop := h.2
  rw [stop, byteLength_append, hstart] at hstop
  obtain ⟨foot, htext, hfoot⟩ := exists_of_append_eq hrest.symm (by omega)
  refine ⟨before, after, head, foot, hsplit, ?_, htext, hfoot, ?_⟩
  · rintro rfl
    rw [htext, List.append_nil] at hstop
    omega
  · rw [byteLength_append, hstart]

/-- The newline that the text goes on with after a token is the next token. -/
theorem exists_newline_of_spelling {before after : List Token} {cs : List Char}
    (hsplit : tokenize source = before ++ token :: after) (h : spelling after = '\n' :: cs) :
    ∃ next ∈ tokenize source, next.kind = .newline ∧ next.start = token.stop := by
  cases after with
  | nil => cases h
  | cons next after =>
    have hplaces := tokenize_consecutive source
    rw [hsplit] at hplaces
    have hnext : next ∈ tokenize source := by simp [hsplit]
    obtain ⟨c, rest, htext⟩ := List.exists_cons_of_ne_nil (hplaces.filled next (by simp))
    rw [spelling_cons, htext] at h
    cases (List.cons.inj h).1
    exact ⟨next, hnext, Tokenizer.kind_of_text hnext htext, hplaces.start_eq_stop⟩

/-- Trivia goes past the end of the content of a line by a carriage return at most. -/
theorem takesReturn_of_straddles (ht : token ∈ tokenize source) (htrivia : token.isTrivia = true)
    (he : Line.contentEnd? (Line.ofText source) n = some e) (h : token.Straddles e) :
    TakesReturn (tokenize source) token e := by
  have hno := Tokenizer.newline_not_mem_trivia ht htrivia
  obtain ⟨line, hline, rfl⟩ := Line.contentEnd?_eq_some_iff.mp he
  have hend := (Line.joinable_ofText source).getElem? hline
  have hsource := Line.join_of_getElem? hline
  rw [Line.join_ofText, Line.text, List.append_assoc, ← List.append_assoc] at hsource
  rw [Line.startOffset, ← byteLength_append] at h ⊢
  obtain ⟨before, after, head, foot, hsplit, hfoot, htext, hbs, hlength⟩ :=
    h.exists_split ht hsource
  obtain ⟨c, foot, rfl⟩ := List.exists_cons_of_ne_nil hfoot
  cases hterminator : line.terminator with
  | none =>
    have hlast := hend.2.mp hterminator
    rw [hterminator, hlast, List.drop_length] at hbs
    cases hbs
  | lf =>
    rw [hterminator] at hbs
    cases (List.cons.inj hbs).1
    exact absurd (by rw [htext]; simp) hno
  | crlf =>
    rw [hterminator] at hbs
    obtain ⟨rfl, hrest⟩ := List.cons.inj hbs
    -- the newline of the line does not belong to trivia, so the token ends with the carriage return
    cases foot with
    | cons d foot =>
      have hd : '\n' = d := (List.cons.inj hrest).1
      exact absurd (by rw [htext, hd]; simp) hno
    | nil =>
      have hstop : token.stop = token.start + byteLength head + 1 := by
        rw [stop, htext, byteLength_append]
        rfl
      refine ⟨htrivia, h.1, by omega, by rw [htext]; simp, ?_⟩
      exact exists_newline_of_spelling hsplit hrest.symm

theorem contentEnd_le_start (ht : token ∈ tokenize source) (hk : token.kind = .newline)
    (he : Line.contentEnd? (Line.ofText source) n = some e)
    (hstart : Line.startOffset (Line.ofText source) n ≤ token.start) : e ≤ token.start := by
  obtain ⟨before, after, _, hplace, hsource⟩ := exists_place ht
  rw [Tokenizer.text_of_newline ht hk] at hsource
  have hjoin : Line.join (Line.ofText source) = spelling before ++ '\n' :: spelling after :=
    (Line.join_ofText source).trans hsource
  rw [hplace] at hstart ⊢
  exact Line.contentEnd_le_newline (Line.joinable_ofText source) he hjoin hstart

/-- Between what goes to the end of a line and a later token there is a newline, which may be that token. -/
theorem EndsLine.exists_newline {row after : List Token} (h : EndsLine row after)
    (ho : Ordered (row ++ after)) (ht : token ∈ after) (htrivia : token.isTrivia = false) :
    ∃ newline ∈ row ++ after, newline.kind = .newline ∧ newline.start ≤ token.start ∧
      ∀ solid ∈ row, solid.isSolid = true → solid.stop ≤ newline.start := by
  rcases h with ⟨last, hlast, hk⟩ | h
  · have hmem := List.mem_of_getLast? hlast
    have hbefore := ho.stop_le_start_of_append hmem ht
    have hfilled := ho.filled last (List.mem_append_left _ hmem)
    refine ⟨last, List.mem_append_left _ hmem, hk, by omega, ?_⟩
    intro solid hsolid hs
    have hrow : Ordered row := ho.sublist (List.sublist_append_left _ _)
    have hle := hrow.stop_le_of_getLast? hlast hsolid
    have := hrow.filled solid hsolid
    rcases hrow.eq_or_apart hsolid hmem with rfl | hle' | hle'
    · simp [isSolid, hk] at hs
    · exact hle'
    · omega
  · have hmem : token ∈ withoutTrivia after := List.mem_filter.mpr ⟨ht, by simp [htrivia]⟩
    have hne : withoutTrivia after ≠ [] := List.ne_nil_of_mem hmem
    have hhead := List.head?_eq_some_head hne
    have hafter := (List.mem_filter.mp (List.head_mem hne)).1
    have hlater : Ordered (withoutTrivia after) :=
      ho.sublist (List.filter_sublist.trans (List.sublist_append_right _ _))
    refine ⟨_, List.mem_append_right _ hafter, h _ hhead, hlater.start_le_of_head? hhead hmem, ?_⟩
    intro solid hsolid _
    exact ho.stop_le_start_of_append hsolid hafter

end Token

namespace Fold

open Token

variable {source : List Char} {lines : List Line} {node : Tree} {all before after : List Token}
  {first last t : Token} {d e : Nat} {children : List Tree} {fold : Fold}

/-- No token lies across the start of the fold of a node, not even one outside of the node. -/
theorem not_straddles_start (h : Placed lines all) (hin : node.leaves <:+: all)
    (frame : Frame lines node first last d e)
    (hne : Line.ofOffset lines first.start ≠ Line.ofOffset lines (last.stop - 1)) (ht : t ∈ all) :
    ¬ t.Straddles (pastToken node.leaves d) := by
  rintro ⟨hstart, hstop⟩
  have hnode := h.sublist hin.sublist
  have hfirst := hin.subset frame.first_solid.1
  rcases pastToken_cases node.leaves d with ⟨heq, houtside⟩ | ⟨u, hu, _, _, heq⟩
  · rw [heq] at hstart hstop
    have hvisible := frame.start_lt hnode
    have hbelow := Line.contentEnd_le_of_lt_ofOffset frame.firstEnd
      (frame.line_lt hnode.toOrdered hne)
    have hge : first.start ≤ t.start := by
      rcases h.toOrdered.eq_or_apart hfirst ht with rfl | hle | hle
      · exact Nat.le_refl _
      · have := h.filled first hfirst
        omega
      · omega
    have hmem := h.toOrdered.mem_of_isInfix hin frame.first_solid.1 frame.last_solid.1 ht hge
      (by omega)
    have := houtside t hmem hstart
    omega
  · rw [heq] at hstart hstop
    rcases h.toOrdered.eq_or_apart ht (hin.subset hu) with rfl | hle | hle
    · omega
    · have := h.filled u (hin.subset hu)
      omega
    · omega

/-- A token lies across the end of the fold of a node that goes to the end of a line only if it takes the
carriage return of that line. -/
theorem takesReturn_of_straddles_stop (hsplit : tokenize source = before ++ node.leaves ++ after)
    (hends : EndsLine node.leaves after) (frame : Frame (Line.ofText source) node first last d e)
    (ht : t ∈ tokenize source) (h : t.Straddles (max e last.stop)) :
    TakesReturn (tokenize source) t (max e last.stop) := by
  have hplaced := placed_tokenize source
  have hlast : last ∈ tokenize source := by
    rw [hsplit]
    exact List.mem_append_left _ (List.mem_append_right _ frame.last_solid.1)
  have hfilled := hplaced.filled last hlast
  obtain ⟨hstart, hstop⟩ := h
  have hapart : last.stop ≤ t.start := by
    rcases hplaced.toOrdered.eq_or_apart hlast ht with rfl | hle | hle
    · omega
    · exact hle
    · omega
  have hmax : max e last.stop = e := by omega
  rw [hmax] at hstart hstop ⊢
  by_cases htrivia : t.isTrivia = true
  · exact takesReturn_of_straddles ht htrivia frame.lastEnd ⟨hstart, hstop⟩
  -- a token of the grammar would stand behind the newline that ends the line of the node
  · rw [Bool.not_eq_true] at htrivia
    have hall := hplaced.toOrdered
    rw [hsplit, List.append_assoc] at hall
    have hnode : Ordered (node.leaves ++ after) := hall.sublist (List.sublist_append_right _ _)
    have hline : ∀ u ∈ tokenize source, u.kind = .newline → last.stop ≤ u.start → e ≤ u.start := by
      intro u hu hk hle
      have hoffset := Line.startOffset_ofOffset_le (Line.ofText source) (last.stop - 1)
      exact contentEnd_le_start hu hk frame.lastEnd (by omega)
    have hafter : t ∈ after := by
      have hmem := ht
      rw [hsplit, List.append_assoc] at hmem
      rcases List.mem_append.mp hmem with hbefore | hmem
      · have := hall.stop_le_start_of_append hbefore (List.mem_append_left _ frame.last_solid.1)
        omega
      · rcases List.mem_append.mp hmem with hmem | hafter
        · have hfilled := hplaced.filled t ht
          by_cases hk : t.kind = .newline
          · have := hline t ht hk hapart
            omega
          · have hs : t.isSolid = true := by simp [isSolid, htrivia, hk]
            have := (frame.bounds (hnode.sublist (List.sublist_append_left _ _)) hmem hs).2
            omega
        · exact hafter
    obtain ⟨u, hu, hk, hle, hsolid⟩ := hends.exists_newline hnode hafter htrivia
    have := hsolid last frame.last_solid.1 frame.last_solid.2
    have := hline u (by rw [hsplit, List.append_assoc]; exact List.mem_append_right _ hu) hk this
    omega

/-- A fold is that of a node which goes to the end of a line. -/
theorem exists_node_of_mem (h : Tree.Along Tree.EndsLines children [])
    (hf : fold ∈ ofTree (.node .file children)) :
    ∃ placeholder node before after, Tree.leavesAll children = before ++ node.leaves ++ after ∧
      EndsLine node.leaves after ∧
      ofNode? (Line.ofText (Tree.node .file children).text) placeholder node = some fold := by
  obtain ⟨item, hitem, hf⟩ := List.mem_flatMap.mp hf
  obtain ⟨before, after, hsplit, hends⟩ := h.exists_after (node_mem_of_mem_items hitem)
  rw [List.append_nil] at hsplit
  rcases mem_ofItem_iff.mp hf with hwhole | ⟨statement, hstatement, hf⟩
  · refine ⟨_, item.node, before, after, hsplit, ?_, hwhole⟩
    cases item <;> exact hends.whole _ rfl
  · obtain ⟨before', after', hsplit', hends'⟩ :=
      hends.statements.exists_after (node_mem_of_mem_statements hstatement)
    have hleaves : item.node.leaves = Tree.leavesAll item.node.children := by
      cases item <;> rfl
    refine ⟨_, statement.node, before ++ before', after', ?_, hends' rfl, hf⟩
    rw [hsplit, hleaves, List.append_assoc, hsplit', List.append_assoc, List.append_assoc,
      List.append_assoc]

end Fold

/-- No fold starts inside of a token. A fold ends inside of one just where that is trivia which goes on by the
carriage return of the end of the line alone. -/
theorem folds_straddled (source : List Char) :
    ∃ result, parse source = .ok result ∧
      ∀ fold ∈ Fold.ofTree result.tree, ∀ token ∈ tokenize source,
        ¬ token.Straddles fold.span.start ∧
          (token.Straddles fold.span.stop ↔
            Token.TakesReturn (tokenize source) token fold.span.stop) := by
  obtain ⟨children, diagnostics, hparse, hleaves, hends⟩ := parse_endsLines source
  refine ⟨_, hparse, ?_⟩
  intro fold hfold token htoken
  obtain ⟨placeholder, node, before, after, hsplit, hnode, hf⟩ := Fold.exists_node_of_mem hends hfold
  have htext : (Tree.node .file children).text = source := by
    rw [Tree.text, Tree.leaves_node, hleaves]
    exact spelling_tokenize source
  rw [htext] at hf
  rw [hleaves] at hsplit
  obtain ⟨first, last, d, e, frame, hne, _, rfl⟩ := Fold.ofNode?_eq_some_iff.mp hf
  have hin : node.leaves <:+: tokenize source := ⟨before, after, hsplit.symm⟩
  constructor
  · exact Fold.not_straddles_start (placed_tokenize source) hin frame hne htoken
  · exact ⟨Fold.takesReturn_of_straddles_stop hsplit hnode frame htoken, Token.TakesReturn.straddles⟩

/-- The blanks at the end of the line and its carriage return are one token. -/
theorem fold_stops_in_whitespace :
    ∃ result, parse ['a', ':', '\n', ' ', '1', ' ', '\r', '\n'] = .ok result ∧
      ∃ fold ∈ Fold.ofTree result.tree,
        ∃ token ∈ tokenize ['a', ':', '\n', ' ', '1', ' ', '\r', '\n'],
          token.Straddles fold.span.stop := by
  have hfolds : (parse ['a', ':', '\n', ' ', '1', ' ', '\r', '\n']).map
      (fun result => Fold.ofTree result.tree) = .ok [⟨⟨2, 6⟩, .body⟩] := by
    decide +kernel
  obtain ⟨children, diagnostics, hparse, _⟩ := exists_parse ['a', ':', '\n', ' ', '1', ' ', '\r', '\n']
  rw [hparse] at hfolds
  refine ⟨_, hparse, ⟨⟨2, 6⟩, .body⟩, ?_, ⟨.whitespace, 5, [' ', '\r']⟩, ?_, ?_⟩
  · have hfold : Fold.ofTree (.node .file children) = [⟨⟨2, 6⟩, .body⟩] := Except.ok.inj hfolds
    rw [hfold]
    exact List.mem_singleton_self _
  · decide +kernel
  · decide +kernel

end VoiceScript
