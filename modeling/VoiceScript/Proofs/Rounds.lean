import VoiceScript.Proofs.Lossless

namespace VoiceScript

namespace Parser

variable {n : Nat} {p q r s : Parser}

/-- Rounds of the parser, as many as the number says. -/
inductive Rounds : Nat → Parser → Parser → Prop where
  | refl (p : Parser) : Rounds 0 p p
  | round {n : Nat} {p q r s : Parser} (looked : p.look = .ok q) (more : q.next? ≠ none)
      (taken : q.item = .ok r) (later : Rounds n r s) : Rounds (n + 1) p s

/-- Each round takes a token at least. -/
theorem Rounds.length_le (h : Rounds n p q) : n + q.rest.length ≤ p.rest.length := by
  induction h with
  | refl p => omega
  | round looked _ taken _ ih =>
    have := look_rest_le looked
    have := item_rest_lt taken
    omega

theorem Rounds.items_eq (h : Rounds n p q) : q.items = p.items := by
  induction h with
  | refl p => rfl
  | round looked more taken _ ih =>
    rw [ih, items_of_look looked, if_neg more, taken]
    rfl

theorem look_of_items (h : p.items = .ok q) : ∃ r, p.look = .ok r := by
  unfold items at h
  split at h
  · cases h
  · exact ⟨_, by assumption⟩

/-- A whole run is made of rounds, up to a state where no token comes. -/
theorem rounds_of_items (h : p.items = .ok q) :
    ∃ n r, Rounds n p r ∧ r.look = .ok q ∧ q.next? = none := by
  obtain ⟨a, hl⟩ := look_of_items h
  generalize hk : p.rest.length = k
  induction k using Nat.strongRecOn generalizing p a with
  | ind k ih =>
    rw [items_of_look hl] at h
    by_cases hn : a.next? = none
    · rw [if_pos hn] at h
      cases h
      exact ⟨0, p, .refl p, hl, hn⟩
    · rw [if_neg hn] at h
      obtain ⟨b, hi, hb⟩ := bind_ok.mp h
      have hlt : b.rest.length < k := by
        have := look_rest_le hl
        have := item_rest_lt hi
        omega
      obtain ⟨c, hc⟩ := look_of_items hb
      obtain ⟨m, r, hr, hlast⟩ := ih _ hlt hb c hc rfl
      exact ⟨m + 1, r, .round hl hn hi hr, hlast⟩

/-- A state that is reached in a run without fault goes on without fault. -/
theorem Rounds.goes_on (h : Rounds n p s) (hp : p.items = .ok q) :
    ∃ a, s.look = .ok a ∧
      (a.next? = none ∨ ∃ r, a.item = .ok r ∧ r.rest.length < a.rest.length) := by
  have hs : s.items = .ok q := h.items_eq.trans hp
  obtain ⟨a, hl⟩ := look_of_items hs
  refine ⟨a, hl, ?_⟩
  by_cases hn : a.next? = none
  · exact .inl hn
  · rw [items_of_look hl, if_neg hn] at hs
    obtain ⟨r, hr, _⟩ := bind_ok.mp hs
    exact .inr ⟨r, hr, item_rest_lt hr⟩

theorem items_of_file (h : p.file = .ok q) : ∃ r, (p.openNode .file).items = .ok r := by
  obtain ⟨r, hr, _⟩ := bind_ok.mp h
  exact ⟨r, hr⟩

end Parser

/-- Parsing meets no fault: no token is missing or other than foreseen, patience does not run out, and
what is written is one node over all tokens. There are no more rounds than tokens. -/
theorem parse_total (source : List Char) :
    (∃ result, parse source = .ok result) ∧
    (∃ q children, (Parser.ofTokens (tokenize source)).file = .ok q ∧
      q.events.reverse = .start .file :: Tree.eventsAll children ++ [.finish]) ∧
    (∃ n p q, Parser.Rounds n ((Parser.ofTokens (tokenize source)).openNode .file) p ∧
      p.look = .ok q ∧ q.next? = none) ∧
    ∀ n p, Parser.Rounds n ((Parser.ofTokens (tokenize source)).openNode .file) p →
      n + p.rest.length ≤ (tokenize source).length ∧
      ∃ q, p.look = .ok q ∧
        (q.next? = none ∨ ∃ r, q.item = .ok r ∧ r.rest.length < q.rest.length) := by
  obtain ⟨row, tail, hs, ht⟩ := Spaced.exists_tokens_eq (tokenize source)
  obtain ⟨q, hq, he, _⟩ := Parser.file_ok row ht
  rw [← hs] at hq he
  obtain ⟨r, hr⟩ := Parser.items_of_file hq
  have hevents := congrArg List.reverse he
  rw [List.reverse_reverse, Tree.events_node] at hevents
  refine ⟨⟨_, parse_eq hs ht⟩, ⟨q, _, hq, hevents⟩, ?_, ?_⟩
  · obtain ⟨n, p, hp, hl, hn⟩ := Parser.rounds_of_items hr
    exact ⟨n, p, r, hp, hl, hn⟩
  · intro n p hp
    exact ⟨hp.length_le, hp.goes_on hr⟩

end VoiceScript
