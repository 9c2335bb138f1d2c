import VoiceScript.Proofs.LineLocal
import VoiceScript.Proofs.LineTable
import VoiceScript.Tokenizer.Session

namespace VoiceScript

namespace Text

variable {n : Nat} {as bs : List Char}

theorem takeBytes_of_le {cs : List Char} (h : byteLength cs ≤ n) : takeBytes n cs = cs := by
  obtain ⟨k, rfl⟩ := Nat.exists_eq_add_of_le h
  simpa [takeBytes] using takeBytes_add cs [] k

/-- Two front parts of one text that are equally long are equal. -/
theorem append_inj_of_byteLength {as bs cs ds : List Char} (h : as ++ bs = cs ++ ds)
    (hlength : byteLength as = byteLength cs) : as = cs ∧ bs = ds := by
  obtain ⟨between, rfl, rfl⟩ := exists_of_append_eq h (Nat.le_of_eq hlength)
  have hnil : between = [] := by
    cases between with
    | nil => rfl
    | cons c between =>
      have := byteLength_pos (List.cons_ne_nil c between)
      rw [byteLength_append] at hlength
      omega
  simp [hnil]

end Text

namespace Tokenizer

variable {t u v : Tokenizer} {token : Token} {mode : Mode} {n : Nat} {cs : List Char}

theorem steps_of_next?_eq_none (h : t.next? = none) : t.steps = [] := by
  rw [steps]
  split <;> simp_all

theorem steps_of_next?_eq_some (h : t.next? = some (token, u)) : t.steps = (token, u) :: u.steps := by
  rw [steps]
  split <;> simp_all

theorem rest_eq_nil (h : t.next? = none) : t.rest = [] := by
  unfold next? at h
  split at h
  · assumption
  · cases h

theorem finish_of_next?_eq_none (h : t.next? = none) : t.finish = t := by
  rw [finish, steps_of_next?_eq_none h]
  rfl

theorem finish_of_next?_eq_some (h : t.next? = some (token, u)) : t.finish = u.finish := by
  rw [finish, finish, steps_of_next?_eq_some h, List.getLast?_cons]
  cases u.steps.getLast? <;> rfl

/-- A scan from one tokenizer on comes to another one. -/
inductive Reaches : Tokenizer → Tokenizer → Prop
  | refl (t : Tokenizer) : Reaches t t
  | step {t u v : Tokenizer} {token : Token} (h : t.next? = some (token, u)) (rest : Reaches u v) :
      Reaches t v

/-- A scan reaches where it starts and where it is after each token. -/
theorem reaches_iff : Reaches t u ↔ u = t ∨ ∃ token, (token, u) ∈ t.steps := by
  constructor
  · intro h
    induction h with
    | refl t => exact .inl rfl
    | step h rest ih =>
      rw [steps_of_next?_eq_some h]
      rcases ih with rfl | ⟨other, hm⟩
      · exact .inr ⟨_, List.mem_cons_self⟩
      · exact .inr ⟨other, List.mem_cons_of_mem _ hm⟩
  · rintro (rfl | ⟨token, h⟩)
    · exact .refl u
    · fun_induction steps t with
      | case1 => cases h
      | case2 t first v hn ih =>
        rcases List.mem_cons.mp h with he | hm
        · cases he
          exact .step hn (.refl u)
        · exact .step hn (ih hm)

/-- What a scan goes over: the tokens found so far spell it, and the tokens still to come follow them. -/
theorem Reaches.exists_before (h : Reaches t u) :
    ∃ before, t.tokens = before ++ u.tokens ∧ t.rest = Token.spelling before ++ u.rest ∧
      u.offset = t.offset + Text.byteLength (Token.spelling before) := by
  induction h with
  | refl t => exact ⟨[], rfl, rfl, rfl⟩
  | @step t u v token h rest ih =>
    obtain ⟨before, htokens, hrest, hoffset⟩ := ih
    obtain ⟨hstart, hstop, _, _⟩ := next?_place h
    refine ⟨token :: before, ?_, ?_, ?_⟩
    · rw [tokens_of_next?_eq_some h, htokens, List.cons_append]
    · rw [← next?_text h, hrest, Token.spelling_cons, List.append_assoc]
    · rw [hoffset, hstop, Token.stop, hstart, Token.spelling_cons, Text.byteLength_append]
      omega

theorem Reaches.finish_eq (h : Reaches t u) : t.finish = u.finish := by
  induction h with
  | refl t => rfl
  | step h rest ih => rw [finish_of_next?_eq_some h, ih]

/-- The tokens still to come are those that start here or later. -/
theorem Reaches.tokens_eq_filter (h : Reaches t u) :
    u.tokens = t.tokens.filter fun token => u.offset ≤ token.start := by
  obtain ⟨before, htokens, _, hoffset⟩ := h.exists_before
  have hplaces := tokens_consecutive t
  rw [htokens] at hplaces
  have hbefore : before.filter (fun token => u.offset ≤ token.start) = [] := by
    rw [List.filter_eq_nil_iff]
    intro token hmem
    obtain ⟨front, back, rfl⟩ := List.append_of_mem hmem
    have hfilled := Text.byteLength_pos (hplaces.filled token (by simp))
    rw [List.append_assoc, List.cons_append] at hplaces
    have hstart := hplaces.start_eq
    simp only [Token.spelling_append, Token.spelling_cons, Text.byteLength_append] at hoffset
    simp only [decide_eq_true_eq]
    omega
  have hafter : u.tokens.filter (fun token => u.offset ≤ token.start) = u.tokens := by
    rw [List.filter_eq_self]
    intro token hmem
    simpa using (tokens_consecutive u).le_start token hmem
  rw [htokens, List.filter_append, hbefore, hafter, List.nil_append]

/-- Where a scan of a text comes to the end of a front part, all that is left is the back part. -/
theorem Reaches.eq_of_offset {as bs : List Char} (h : Reaches (ofText (as ++ bs)) u)
    (ho : u.offset = Text.byteLength as) : u = ⟨Text.byteLength as, u.mode, bs⟩ := by
  obtain ⟨before, _, hrest, hoffset⟩ := h.exists_before
  have hlength : Text.byteLength as = Text.byteLength (Token.spelling before) := by
    rw [← ho, hoffset, ofText, Nat.zero_add]
  obtain ⟨_, hbs⟩ := Text.append_inj_of_byteLength hrest hlength
  rw [← ho, hbs]

/-- Each token of a scan is the next one at some place that the scan comes to. -/
theorem exists_next?_of_mem (h : token ∈ t.tokens) :
    ∃ u v, t.Reaches u ∧ u.next? = some (token, v) := by
  fun_induction steps t with
  | case1 t hn =>
    rw [tokens_of_next?_eq_none hn] at h
    cases h
  | case2 t first v hn ih =>
    rw [tokens_of_next?_eq_some hn] at h
    rcases List.mem_cons.mp h with rfl | h
    · exact ⟨t, v, .refl t, hn⟩
    · obtain ⟨u, w, hu, hw⟩ := ih h
      exact ⟨u, w, .step hn hu, hw⟩

/-- What is left at a place is the text from there up to the end of the part. -/
theorem Reaches.rest_eq_slice {source : List Char} {start stop : Nat}
    (h : Reaches (within source start stop mode) u) : u.rest = Text.slice u.offset stop source := by
  obtain ⟨before, _, hrest, hoffset⟩ := h.exists_before
  have hcut := Text.takeBytes_append_dropBytes start (Text.takeBytes stop source)
  simp only [within] at hrest hoffset
  rw [hrest, ← List.append_assoc] at hcut
  have hdrop := Text.dropBytes_append
    (Text.takeBytes start (Text.takeBytes stop source) ++ Token.spelling before) u.rest
  rw [hcut, Text.byteLength_append] at hdrop
  rw [Text.slice, hoffset, hdrop]

theorem finish_shift (n : Nat) (t : Tokenizer) : (t.shift n).finish = t.finish.shift n := by
  fun_induction steps t with
  | case1 t h =>
    rw [finish_of_next?_eq_none h, finish_of_next?_eq_none (by rw [next?_shift, h]; rfl)]
  | case2 t token u h ih =>
    have hs : (t.shift n).next? = some (token.shift n, u.shift n) := by
      rw [next?_shift, h]
      rfl
    rw [finish_of_next?_eq_some h, finish_of_next?_eq_some hs, ih]

/-- Cutting at the end of a front part starts at the back part. -/
theorem within_append (as bs : List Char) (mode : Mode) :
    within (as ++ bs) (Text.byteLength as) (Text.byteLength (as ++ bs)) mode =
      ⟨Text.byteLength as, mode, bs⟩ := by
  rw [within, Text.takeBytes_of_le (Nat.le_refl _), Text.takeBytes_append, Text.takeBytes_zero,
    List.append_nil, Text.dropBytes_append]

/-- A tokenizer made anew from a place that a scan of the whole text came to is the one that was there. -/
theorem within_of_reaches {source : List Char} (h : Reaches (ofText source) u) :
    within source u.offset (Text.byteLength source) u.mode = u := by
  obtain ⟨before, _, hrest, hoffset⟩ := h.exists_before
  obtain ⟨offset, mode, rest⟩ := u
  have hsource : source = Token.spelling before ++ rest := hrest
  have ho : offset = Text.byteLength (Token.spelling before) := by
    simpa [ofText] using hoffset
  rw [hsource, ho]
  exact within_append _ _ _

/-- At every place where a host can stop, going on finds the rest of the tokens of the text. -/
theorem agrees_of_mem_resumePoints {source : List Char} {point : ResumePoint}
    (h : point ∈ resumePoints source) : point.agrees (tokenize source) = true := by
  obtain ⟨⟨token, u⟩, hmem, rfl⟩ := List.mem_map.mp h
  have hreached : Reaches (ofText source) u := reaches_iff.mpr (.inr ⟨token, hmem⟩)
  obtain ⟨before, htokens, _, _⟩ := hreached.exists_before
  simp only [ResumePoint.agrees, within_of_reaches hreached, tokenize, htokens, beq_iff_eq,
    List.length_append, Nat.add_sub_cancel, List.drop_left]

end Tokenizer

/-- Two texts end alike, and the scans of both come to the common part in the same mode: from there on they
find the same tokens, as far apart as the places are, and end in the same mode. A tokenizer made anew for the
common part finds them too. -/
theorem tokens_resync (p q s : List Char) (mode : Mode)
    (hp : ∃ t, (Tokenizer.ofText (p ++ s)).Reaches t ∧ t.offset = Text.byteLength p ∧ t.mode = mode)
    (hq : ∃ t, (Tokenizer.ofText (q ++ s)).Reaches t ∧ t.offset = Text.byteLength q ∧ t.mode = mode) :
    ((tokenize (p ++ s)).filter fun t => Text.byteLength p ≤ t.start).map
        (Token.shift (Text.byteLength q)) =
      ((tokenize (q ++ s)).filter fun t => Text.byteLength q ≤ t.start).map
        (Token.shift (Text.byteLength p)) ∧
    (Tokenizer.ofText (p ++ s)).finish.mode = (Tokenizer.ofText (q ++ s)).finish.mode ∧
    (Tokenizer.within (p ++ s) (Text.byteLength p) (Text.byteLength (p ++ s)) mode).tokens =
      (tokenize (p ++ s)).filter (fun t => Text.byteLength p ≤ t.start) ∧
    (Tokenizer.within (p ++ s) (Text.byteLength p) (Text.byteLength (p ++ s)) mode).finish =
      (Tokenizer.ofText (p ++ s)).finish := by
  obtain ⟨t, ht, hto, rfl⟩ := hp
  obtain ⟨u, hu, huo, hmode⟩ := hq
  have hpt : t = Tokenizer.shift (Text.byteLength p) ⟨0, t.mode, s⟩ := ht.eq_of_offset hto
  have hqu : u = Tokenizer.shift (Text.byteLength q) ⟨0, t.mode, s⟩ := by
    rw [← hmode]
    exact hu.eq_of_offset huo
  have hwithin : Tokenizer.within (p ++ s) (Text.byteLength p) (Text.byteLength (p ++ s)) t.mode = t := by
    rw [← hto]
    exact Tokenizer.within_of_reaches ht
  have htokens := ht.tokens_eq_filter
  have hutokens := hu.tokens_eq_filter
  rw [hto] at htokens
  rw [huo] at hutokens
  refine ⟨?_, ?_, by rw [hwithin, htokens]; rfl, by rw [hwithin, ht.finish_eq]⟩
  · calc ((tokenize (p ++ s)).filter fun t => Text.byteLength p ≤ t.start).map
          (Token.shift (Text.byteLength q))
        = t.tokens.map (Token.shift (Text.byteLength q)) := by rw [htokens]; rfl
      _ = u.tokens.map (Token.shift (Text.byteLength p)) := by
          rw [hpt, hqu, Tokenizer.tokens_shift, Tokenizer.tokens_shift, List.map_map, List.map_map]
          congr 1
          funext token
          simp [Token.shift, Nat.add_left_comm]
      _ = ((tokenize (q ++ s)).filter fun t => Text.byteLength q ≤ t.start).map
          (Token.shift (Text.byteLength p)) := by rw [hutokens]; rfl
  · rw [ht.finish_eq, hu.finish_eq, hpt, hqu, Tokenizer.finish_shift, Tokenizer.finish_shift]
    rfl

/-- A value in the place of a longer one, in front of the same words. -/
theorem tokens_resync_value :
    (∃ t, (Tokenizer.ofText ['a', ':', '1', '-', 'b']).Reaches t ∧ t.offset = 3 ∧ t.mode = ⟨false, false⟩) ∧
    (∃ t, (Tokenizer.ofText ['a', ':', '"', 'é', '"', '-', 'b']).Reaches t ∧ t.offset = 6 ∧
      t.mode = ⟨false, false⟩) ∧
    (tokenize ['a', ':', '"', 'é', '"', '-', 'b']).filter (fun t => 6 ≤ t.start) =
      [⟨.punct .dash, 6, ['-']⟩, ⟨.identifier, 7, ['b']⟩] ∧
    ((tokenize ['a', ':', '1', '-', 'b']).filter fun t => 3 ≤ t.start).map (Token.shift 6) =
      [⟨.punct .dash, 9, ['-']⟩, ⟨.identifier, 10, ['b']⟩] := by
  have hp : ∃ t, (Tokenizer.ofText ['a', ':', '1', '-', 'b']).Reaches t ∧ t.offset = 3 ∧
      t.mode = ⟨false, false⟩ :=
    ⟨⟨3, ⟨false, false⟩, ['-', 'b']⟩, Tokenizer.reaches_iff.mpr (.inr ⟨⟨.number, 2, ['1']⟩, by decide +kernel⟩),
      rfl, rfl⟩
  have hq : ∃ t, (Tokenizer.ofText ['a', ':', '"', 'é', '"', '-', 'b']).Reaches t ∧ t.offset = 6 ∧
      t.mode = ⟨false, false⟩ :=
    ⟨⟨6, ⟨false, false⟩, ['-', 'b']⟩,
      Tokenizer.reaches_iff.mpr (.inr ⟨⟨.string, 2, ['"', 'é', '"']⟩, by decide +kernel⟩), rfl, rfl⟩
  have h := tokens_resync ['a', ':', '1'] ['a', ':', '"', 'é', '"'] ['-', 'b'] ⟨false, false⟩ hp hq
  refine ⟨hp, hq, by decide +kernel, h.1.trans ?_⟩
  decide +kernel

end VoiceScript
