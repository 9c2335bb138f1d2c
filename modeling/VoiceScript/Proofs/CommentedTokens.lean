import VoiceScript.Proofs.CommentedLine
import VoiceScript.Proofs.Contents
import VoiceScript.Proofs.Lines
import VoiceScript.Proofs.Placed
import VoiceScript.Proofs.Scans
import VoiceScript.Proofs.Shift

namespace VoiceScript

variable {as bs cs lead body rest : List Char} {n m : Nat} {mode : Mode}

namespace Token

/-- The tokens of the grammar, wherever they stand. -/
def contents (tokens : List Token) : List (TokenKind × List Char) :=
  (withoutTrivia tokens).map content

@[simp] theorem contents_append (before after : List Token) :
    contents (before ++ after) = contents before ++ contents after := by
  simp [contents, withoutTrivia]

theorem contents_cons_of_isTrivia {t : Token} (h : t.isTrivia = true) (ts : List Token) :
    contents (t :: ts) = contents ts := by
  simp [contents, withoutTrivia, h]

theorem contents_eq_nil {ts : List Token} (h : ∀ t ∈ ts, t.isTrivia = true) : contents ts = [] := by
  simpa [contents, withoutTrivia] using h

@[simp] theorem contents_shift (n : Nat) (ts : List Token) :
    contents (ts.map (shift n)) = contents ts := by
  rw [contents, contents, withoutTrivia, withoutTrivia, List.filter_map, List.map_map]
  rfl

end Token

namespace Tokenizer

theorem takeWhile_of_stop {test : Char → Bool} (h : ∀ c ∈ cs, test c = true)
    (hrest : ∀ c ∈ rest.head?, test c = false) : (cs ++ rest).takeWhile test = cs := by
  rw [List.takeWhile_append_of_pos h]
  cases rest with
  | nil => simp
  | cons d ds => simp [hrest d rfl]

/-- The grammar does not see a comment that runs up to the end of its line. -/
theorem contents_comment (n : Nat) (mode : Mode) (hbody : '\n' ∉ body)
    (hrest : ∀ c ∈ rest.head?, c = '\n') : ∃ m mode',
    Token.contents (tokens ⟨n, mode, '#' :: (body ++ rest)⟩) =
      Token.contents (tokens ⟨m, mode', rest⟩) := by
  have hrun : (body ++ rest).takeWhile (· != '\n') = body := by
    apply takeWhile_of_stop
    · intro c hc
      simpa using fun (h : c = '\n') => hbody (h ▸ hc)
    · intro c hc
      simp [hrest c hc]
  have hlexeme : mode.lexeme '#' (body ++ rest) = ⟨.comment, body.length⟩ := by
    change (⟨.comment, Lexeme.run (· != '\n') (body ++ rest)⟩ : Lexeme) = _
    rw [Lexeme.run, hrun]
  have hnext : next? ⟨n, mode, '#' :: (body ++ rest)⟩ =
      some (⟨.comment, n, '#' :: body⟩,
        ⟨Token.stop ⟨.comment, n, '#' :: body⟩, mode.after .comment, rest⟩) := by
    simp [next?, hlexeme]
  exact ⟨_, _, by rw [tokens_of_next?_eq_some hnext, Token.contents_cons_of_isTrivia rfl]⟩

/-- Blanks at the front are one token, and the mode stays. -/
theorem next?_blanks (n : Nat) (mode : Mode) {c : Char}
    (hlead : ∀ d ∈ c :: cs, Lexeme.isHorizontal d = true)
    (hrest : ∀ d ∈ rest.head?, Lexeme.isHorizontal d = false) :
    next? ⟨n, mode, c :: cs ++ rest⟩ =
      some (⟨.whitespace, n, c :: cs⟩, ⟨Token.stop ⟨.whitespace, n, c :: cs⟩, mode, rest⟩) := by
  obtain ⟨hc, hcs⟩ := List.forall_mem_cons.mp hlead
  have hlexeme : mode.lexeme c (cs ++ rest) = ⟨.whitespace, cs.length⟩ := by
    simp [Mode.lexeme, Lexeme.front?, hc, Mode.refine, Lexeme.run, takeWhile_of_stop hcs hrest]
  simp [next?, hlexeme, Mode.after]

/-- The grammar does not see blanks at the front. -/
theorem contents_blanks (n : Nat) (mode : Mode) (hlead : ∀ c ∈ lead, Lexeme.isHorizontal c = true)
    (hrest : ∀ c ∈ rest.head?, Lexeme.isHorizontal c = false) : ∃ m,
    Token.contents (tokens ⟨n, mode, lead ++ rest⟩) = Token.contents (tokens ⟨m, mode, rest⟩) := by
  cases lead with
  | nil => exact ⟨n, rfl⟩
  | cons c cs =>
    have hnext := next?_blanks n mode hlead hrest
    exact ⟨_, by rw [tokens_of_next?_eq_some hnext, Token.contents_cons_of_isTrivia rfl]⟩

theorem contents_tokens (n : Nat) (cs : List Char) :
    Token.contents (tokens ⟨n, .initial, cs⟩) = Token.contents (tokenize cs) := by
  have hshift := tokens_shift n (.ofText cs)
  rw [shift, ofText] at hshift
  rw [← n.add_zero, hshift, Token.contents_shift]
  rfl

theorem contents_newline (n : Nat) (mode : Mode) (cs : List Char) :
    Token.contents (tokens ⟨n, mode, '\n' :: cs⟩) =
      (.newline, ['\n']) :: Token.contents (tokenize cs) := by
  have hnext : next? ⟨n, mode, '\n' :: cs⟩ =
      some (⟨.newline, n, ['\n']⟩, ⟨n + 1, .initial, cs⟩) := rfl
  rw [tokens_of_next?_eq_some hnext, ← contents_tokens (n + 1)]
  rfl

end Tokenizer

theorem tokenize_nil : tokenize [] = [] :=
  Tokenizer.tokens_of_next?_eq_none rfl

theorem start_lt_byteLength {t : Token} (h : t ∈ tokenize cs) : t.start < Text.byteLength cs :=
  Nat.lt_of_lt_of_le (Token.start_lt_stop ((tokenize_consecutive cs).filled t h)) (stop_le_byteLength h)

/-- A front part at whose end a newline token ends has that token as its own last one. -/
theorem kind_getLast?_of_newline (bs : List Char)
    (h : ∃ t ∈ tokenize (as ++ bs), t.kind = .newline ∧ t.stop = Text.byteLength as) :
    ∀ t ∈ (tokenize as).getLast?, t.kind = .newline := by
  obtain ⟨nl, hmem, hk, hstop⟩ := h
  obtain ⟨before, after, hsplit⟩ := List.append_of_mem hmem
  have htext := Tokenizer.text_of_newline hmem hk
  have hspelling := spelling_tokenize (as ++ bs)
  have hplaces := tokenize_consecutive (as ++ bs)
  rw [hsplit] at hspelling hplaces
  have hlength : Text.byteLength as = Text.byteLength (Token.spelling before ++ ['\n']) := by
    rw [← hstop, Token.stop, hplaces.start_eq, htext, Nat.zero_add, Text.byteLength_append]
  have hsource : as ++ bs = (Token.spelling before ++ ['\n']) ++ Token.spelling after := by
    rw [← hspelling, Token.spelling_append, Token.spelling_cons, htext, List.append_assoc]
  obtain ⟨has, hbs⟩ := Text.append_inj_of_byteLength hsource hlength
  have hrun : Tokenizer.tokens ⟨0, .initial, Token.spelling before ++ '\n' :: Token.spelling after⟩ =
      before ++ nl :: after := by
    rw [← hsplit, hsource, List.append_assoc]
    rfl
  have halone : tokenize as = before ++ [nl] := by
    have hcut := Tokenizer.tokens_newline hrun []
    rw [Tokenizer.tokens_of_next?_eq_none (t := ⟨nl.stop, .initial, []⟩) rfl] at hcut
    rw [has]
    exact hcut
  rw [halone, List.getLast?_concat]
  rintro t ⟨⟩
  exact hk

theorem kind_getLast?_of_append (ha : ∀ t ∈ (tokenize as).getLast?, t.kind = .newline)
    (h : ∀ t ∈ (tokenize (as ++ bs)).getLast?, t.kind = .newline) :
    ∀ t ∈ (tokenize bs).getLast?, t.kind = .newline := by
  intro t ht
  have hlast : t.shift (Text.byteLength as) ∈ (tokenize (as ++ bs)).getLast? := by
    rw [tokenize_append ha, List.getLast?_append, List.getLast?_map, Option.mem_def.mp ht]
    rfl
  have hk := h _ hlast
  exact hk

theorem Terminator.contents_of_ne_none {terminator : Terminator} (h : terminator ≠ .none) :
    Token.contents (tokenize terminator.text) = [(.newline, ['\n'])] := by
  cases terminator with
  | none => exact absurd rfl h
  | lf => decide +kernel
  | crlf => decide +kernel

namespace Comment

variable {line : Line}

/-- The grammar does not see a line with a sign on, up to the end of the comment. -/
theorem contents_comment_append (as rest : List Char) (hblank : Outline.isBlank line.content = false)
    (hindent : ∀ c ∈ Text.indent line.content, Lexeme.isHorizontal c = true)
    (hn : '\n' ∉ line.content) (has : '\n' ∉ as) (hrest : ∀ c ∈ rest.head?, c = '\n') :
    ∃ m mode, Token.contents (tokenize (comment line.content ++ (as ++ rest))) =
      Token.contents (Tokenizer.tokens ⟨m, mode, rest⟩) := by
  have hbody : '\n' ∉ ' ' :: Text.trimStart line.content ++ as := by
    have htrim : '\n' ∉ Text.trimStart line.content :=
      fun h => hn ((List.dropWhile_sublist _).subset h)
    simp [htrim, has]
  have hsign : ∀ c ∈ ('#' :: (' ' :: Text.trimStart line.content ++ as ++ rest)).head?,
      Lexeme.isHorizontal c = false := by
    rintro c ⟨⟩
    decide
  obtain ⟨m, hlead⟩ := Tokenizer.contents_blanks 0 .initial hindent hsign
  obtain ⟨m', mode, hcomment⟩ := Tokenizer.contents_comment m .initial hbody hrest
  refine ⟨m', mode, ?_⟩
  rw [← hcomment, ← hlead, comment_of_not_isBlank hblank]
  simp [tokenize, Tokenizer.ofText]

/-- The grammar sees a line with a sign on as if nothing but the end of the line were there. -/
theorem contents_comment_line (hblank : Outline.isBlank line.content = false)
    (hindent : ∀ c ∈ Text.indent line.content, Lexeme.isHorizontal c = true)
    (hn : '\n' ∉ line.content) (hend : line.terminator = .none → rest = []) :
    Token.contents (tokenize (Line.text { line with content := comment line.content } ++ rest)) =
      Token.contents (tokenize line.terminator.text) ++ Token.contents (tokenize rest) := by
  by_cases hterminator : line.terminator = .none
  · obtain ⟨m, mode, h⟩ := contents_comment_append [] [] hblank hindent hn
      (by simp) (by simp)
    rw [Tokenizer.tokens_of_next?_eq_none (t := ⟨m, mode, []⟩) rfl] at h
    rw [Line.text, hterminator, hend hterminator, Terminator.text, tokenize_nil, List.append_assoc, h]
    rfl
  · obtain ⟨cr, hcr, hncr⟩ := Terminator.exists_text_of_ne_none hterminator
    obtain ⟨m, mode, h⟩ := contents_comment_append cr ('\n' :: rest) hblank hindent hn hncr
      (by simp)
    rw [Line.text, hcr, List.append_assoc, List.append_assoc, ← hcr,
      Terminator.contents_of_ne_none hterminator]
    exact h.trans (Tokenizer.contents_newline m mode rest)

/-- What the grammar sees of a line is its end and what starts in its content. -/
theorem start_lt_of_isSolid {t : Token} (ht : t ∈ tokenize line.text) (hs : t.isSolid = true) :
    t.start < Text.byteLength line.content := by
  obtain ⟨c, cs, htext, hn, hr⟩ := Tokenizer.exists_text_of_isSolid ht hs
  obtain ⟨before, after, hsplit⟩ := List.append_of_mem ht
  have hstop := stop_le_byteLength ht
  have hfilled := Token.start_lt_stop ((tokenize_consecutive line.text).filled t ht)
  have hplaces := tokenize_consecutive line.text
  have hspelling := spelling_tokenize line.text
  rw [hsplit] at hplaces hspelling
  have hstart : t.start = Text.byteLength (Token.spelling before) := by
    rw [hplaces.start_eq, Nat.zero_add]
  have hline : line.text ++ [] = Token.spelling before ++ c :: (cs ++ Token.spelling after) := by
    rw [List.append_nil, ← hspelling, Token.spelling_append, Token.spelling_cons, htext,
      List.cons_append]
  rw [hstart]
  exact Line.lt_byteLength_content hline hn hr (by omega)

/-- A whole line is cut into pieces before its newline, and that. -/
theorem exists_tokens_of_whole (ht : line.terminator ≠ .none)
    (hwhole : ∀ t ∈ (tokenize line.text).getLast?, t.kind = .newline) :
    ∃ front cr nl, tokenize line.text = front ++ [nl] ∧ nl.content = (.newline, ['\n']) ∧
      nl.start = Text.byteLength (Token.spelling front) ∧
      Token.spelling front = line.content ++ cr ∧ '\n' ∉ cr := by
  obtain ⟨cr, hcr, hncr⟩ := Terminator.exists_text_of_ne_none ht
  have hspelling := spelling_tokenize line.text
  have hplaces := tokenize_consecutive line.text
  rcases List.eq_nil_or_concat (tokenize line.text) with hnil | ⟨front, nl, hsplit⟩
  · rw [hnil, Line.text, hcr] at hspelling
    simp at hspelling
  rw [List.concat_eq_append] at hsplit
  have hlast : nl ∈ tokenize line.text := by simp [hsplit]
  have hk : nl.kind = .newline := hwhole nl (by simp [hsplit])
  have htext : nl.text = ['\n'] := Tokenizer.text_of_newline hlast hk
  rw [hsplit] at hspelling hplaces
  rw [Token.spelling_append, Token.spelling_cons, htext, Token.spelling_nil, Line.text, hcr,
    List.append_nil, ← List.append_assoc] at hspelling
  exact ⟨front, cr, nl, hsplit, by rw [Token.content, hk, htext], by rw [hplaces.start_eq, Nat.zero_add],
    List.append_cancel_right hspelling, hncr⟩

/-- A whole line without what starts in its content is its newline. -/
theorem contents_filter_whole (hn : '\n' ∉ line.content) (ht : line.terminator ≠ .none)
    (hwhole : ∀ t ∈ (tokenize line.text).getLast?, t.kind = .newline) :
    Token.contents ((tokenize line.text).filter fun t => ¬ t.start < Text.byteLength line.content) =
      [(.newline, ['\n'])] := by
  obtain ⟨front, cr, nl, hsplit, hcontent, hstart, hfront, hncr⟩ := exists_tokens_of_whole ht hwhole
  have hkept : Text.byteLength line.content ≤ nl.start := by
    rw [hstart, hfront, Text.byteLength_append]
    omega
  -- A carriage return at the end of the line may be a token of its own, but is trivia then.
  have htrivia : ∀ t ∈ front, ¬ t.start < Text.byteLength line.content → t.isTrivia = true := by
    intro t hmem hout
    have htokens : t ∈ tokenize line.text := hsplit ▸ List.mem_append_left _ hmem
    by_contra hshown
    by_cases hk : t.kind = .newline
    · have hin : '\n' ∈ Token.spelling front :=
        List.mem_flatMap.mpr ⟨t, hmem, by simp [Tokenizer.text_of_newline htokens hk]⟩
      rw [hfront] at hin
      exact (List.mem_append.mp hin).elim hn hncr
    · exact hout (start_lt_of_isSolid htokens (by simp [Token.isSolid, Bool.eq_false_iff.mpr hshown, hk]))
  have hnone : Token.contents (front.filter fun t => ¬ t.start < Text.byteLength line.content) = [] := by
    apply Token.contents_eq_nil
    intro t ht
    obtain ⟨hmem, hout⟩ := List.mem_filter.mp ht
    exact htrivia t hmem (by simpa using hout)
  have hnl : Token.contents [nl] = [nl.content] := by
    have hk : nl.kind = .newline := congrArg Prod.fst hcontent
    simp [Token.contents, Token.withoutTrivia, Token.isTrivia, TokenKind.isTrivia, hk]
  rw [hsplit, List.filter_append, Token.contents_append, hnone,
    List.filter_cons_of_pos (by simpa using hkept), List.filter_nil, hnl, hcontent, List.nil_append]

/-- A line without what starts in its content is its end. -/
theorem contents_filter_line (hn : '\n' ∉ line.content)
    (hwhole : line.terminator ≠ .none → ∀ t ∈ (tokenize line.text).getLast?, t.kind = .newline) :
    Token.contents ((tokenize line.text).filter fun t => ¬ t.start < Text.byteLength line.content) =
      Token.contents (tokenize line.terminator.text) := by
  by_cases hterminator : line.terminator = .none
  · have htext : line.text = line.content := by
      rw [Line.text, hterminator, Terminator.text, List.append_nil]
    rw [hterminator, Terminator.text, tokenize_nil, List.filter_eq_nil_iff.mpr]
    intro t ht
    have hstart := start_lt_byteLength ht
    rw [htext] at hstart
    simpa using hstart
  · rw [contents_filter_whole hn hterminator (hwhole hterminator),
      Terminator.contents_of_ne_none hterminator]

/-- A line that is the last one, or whole, is cut into its own tokens. -/
theorem tokenize_line_append (hend : line.terminator = .none → bs = [])
    (hwhole : line.terminator ≠ .none → ∀ t ∈ (tokenize line.text).getLast?, t.kind = .newline) :
    tokenize (line.text ++ bs) =
      tokenize line.text ++ (tokenize bs).map (Token.shift (Text.byteLength line.text)) := by
  by_cases hterminator : line.terminator = .none
  · rw [hend hterminator, tokenize_nil, List.append_nil, List.map_nil, List.append_nil]
  · exact tokenize_append (hwhole hterminator) bs

/-- A sign on a whole line between two texts takes away what starts in its content. -/
theorem contents_comment_between (ha : ∀ t ∈ (tokenize as).getLast?, t.kind = .newline)
    (hblank : Outline.isBlank line.content = false)
    (hindent : ∀ c ∈ Text.indent line.content, Lexeme.isHorizontal c = true)
    (hn : '\n' ∉ line.content) (hend : line.terminator = .none → bs = [])
    (hwhole : line.terminator ≠ .none → ∀ t ∈ (tokenize line.text).getLast?, t.kind = .newline) :
    Token.contents
        (tokenize (as ++ (Line.text { line with content := comment line.content } ++ bs))) =
      Token.contents ((tokenize (as ++ (line.text ++ bs))).filter fun t =>
        ¬ (Text.byteLength as ≤ t.start ∧
          t.start < Text.byteLength as + Text.byteLength line.content)) := by
  have hlength : Text.byteLength line.content ≤ Text.byteLength line.text := by
    rw [Line.text, Text.byteLength_append]
    omega
  rw [tokenize_append ha, tokenize_append ha, tokenize_line_append hend hwhole,
    Token.contents_append, Token.contents_shift, contents_comment_line hblank hindent hn hend,
    List.map_append, List.filter_append, List.filter_append, Token.contents_append, Token.contents_append]
  congr 1
  · rw [List.filter_eq_self.mpr]
    intro t ht
    have := start_lt_byteLength ht
    simp only [decide_eq_true_eq]
    omega
  congr 1
  · rw [List.filter_map, Token.contents_shift, ← contents_filter_line hn hwhole]
    congr 2
    funext t
    simp [Token.shift]
  · rw [List.filter_eq_self.mpr]
    · rw [Token.contents_shift, Token.contents_shift]
    · simp only [List.mem_map, forall_exists_index, and_imp, forall_apply_eq_imp_iff₂, Token.shift,
        decide_eq_true_eq]
      intro t _
      omega

/-- A sign on a line of a text takes away the tokens of that line. The line is whole: it starts with the text or
right after a newline token, and ends with the text or with a newline token. -/
theorem contents_set_comment (source : List Char) (n : Nat) (line : Line)
    (hline : (Line.ofText source)[n]? = some line)
    (hblank : Outline.isBlank line.content = false)
    (hindent : ∀ c ∈ Text.indent line.content, c ∈ [' ', '\t', '\r'])
    (hstart : Line.startOffset (Line.ofText source) n = 0 ∨
      ∃ t ∈ tokenize source, t.kind = .newline ∧ t.stop = Line.startOffset (Line.ofText source) n)
    (hstop : n + 1 = (Line.ofText source).length ∨
      ∃ t ∈ tokenize source, t.kind = .newline ∧
        t.stop = Line.startOffset (Line.ofText source) (n + 1)) :
    Token.contents (tokenize (Line.join
        ((Line.ofText source).set n { line with content := comment line.content }))) =
      Token.contents ((tokenize source).filter fun t =>
        ¬ (Line.startOffset (Line.ofText source) n ≤ t.start ∧
          t.start < Line.startOffset (Line.ofText source) n + Text.byteLength line.content)) := by
  have hlt := (List.getElem?_eq_some_iff.mp hline).1
  obtain ⟨hn, hend⟩ := (Line.joinable_ofText source).getElem? hline
  have hsource := Line.join_of_getElem? hline
  rw [Line.join_ofText] at hsource
  have hfirst : ∀ t ∈ (tokenize (Line.join ((Line.ofText source).take n))).getLast?,
      t.kind = .newline := by
    rcases hstart with hzero | hnewline
    · have hnil : Line.join ((Line.ofText source).take n) = [] := by
        by_contra hne
        exact (Text.byteLength_pos hne).ne' hzero
      simp [hnil, tokenize_nil]
    · apply kind_getLast?_of_newline (line.text ++ Line.join ((Line.ofText source).drop (n + 1)))
      rwa [← hsource]
  have hwhole : line.terminator ≠ .none → ∀ t ∈ (tokenize line.text).getLast?, t.kind = .newline := by
    intro hterminator
    obtain ⟨nl, hmem, hk, hstop⟩ := hstop.resolve_left fun hlast => hterminator (hend.mpr hlast)
    apply kind_getLast?_of_append hfirst
    apply kind_getLast?_of_newline (Line.join ((Line.ofText source).drop (n + 1)))
    refine ⟨nl, ?_, hk, ?_⟩
    · rwa [List.append_assoc, ← hsource]
    · rw [hstop, Line.startOffset, Line.join_take_succ hline]
  have hrest : line.terminator = .none → Line.join ((Line.ofText source).drop (n + 1)) = [] := by
    intro hterminator
    rw [hend.mp hterminator, List.drop_length, Line.join_nil]
  have hhorizontal : ∀ c ∈ Text.indent line.content, Lexeme.isHorizontal c = true := by
    simpa [Lexeme.isHorizontal, or_assoc] using hindent
  have hbetween := contents_comment_between hfirst hblank hhorizontal hn hrest hwhole
  rw [← hsource] at hbetween
  rw [Line.join_set hlt]
  exact hbetween

/-- A sign on a line between a name and a separator, with a sign in its string. -/
theorem contents_comment_string :
    let source := "x\n\t-\"#\" y\r\n---\n".toList
    (∃ t ∈ tokenize source, t.kind = .newline ∧ t.stop = Line.startOffset (Line.ofText source) 1) ∧
    (∃ t ∈ tokenize source, t.kind = .newline ∧ t.stop = Line.startOffset (Line.ofText source) 2) ∧
    Token.contents (tokenize (Line.join
        ((Line.ofText source).set 1 ⟨comment "\t-\"#\" y".toList, .crlf⟩))) =
      [(.word, ['x']), (.newline, ['\n']), (.newline, ['\n']), (.separator, ['-', '-', '-']),
        (.newline, ['\n'])] := by
  intro source
  have hstart : ∃ t ∈ tokenize source, t.kind = .newline ∧
      t.stop = Line.startOffset (Line.ofText source) 1 := by
    decide +kernel
  have hstop : ∃ t ∈ tokenize source, t.kind = .newline ∧
      t.stop = Line.startOffset (Line.ofText source) 2 := by
    decide +kernel
  have hindent : ∀ c ∈ Text.indent "\t-\"#\" y".toList, c ∈ [' ', '\t', '\r'] := by
    have htab : Text.indent "\t-\"#\" y".toList = ['\t'] := by decide +kernel
    rw [htab]
    simp
  have h := contents_set_comment source 1 ⟨"\t-\"#\" y".toList, .crlf⟩
    (by decide +kernel) (by decide +kernel) hindent (.inr hstart) (.inr hstop)
  exact ⟨hstart, hstop, h.trans (by decide +kernel)⟩

end Comment

end VoiceScript
