import Mathlib.Order.Bounds.Basic
import VoiceScript.Proofs.Scans

namespace VoiceScript

namespace Text

/-- An offset between two characters of a text, or at an end of it. -/
def IsBoundary (cs : List Char) (n : Nat) : Prop :=
  ∃ before after, cs = before ++ after ∧ byteLength before = n

variable {n m : Nat} {cs before after : List Char}

theorem isBoundary_append (before after : List Char) :
    IsBoundary (before ++ after) (byteLength before) :=
  ⟨before, after, rfl, rfl⟩

/-- A cut goes to the last boundary that is not behind the offset. -/
theorem isGreatest_byteLength_takeBytes (n : Nat) (cs : List Char) :
    IsGreatest {m | IsBoundary cs m ∧ m ≤ n} (byteLength (takeBytes n cs)) := by
  refine ⟨⟨?_, byteLength_takeBytes_le n cs⟩, ?_⟩
  · have h := isBoundary_append (takeBytes n cs) (dropBytes n cs)
    rwa [takeBytes_append_dropBytes] at h
  · rintro m ⟨⟨before, after, rfl, rfl⟩, hle⟩
    obtain ⟨k, rfl⟩ := Nat.exists_eq_add_of_le hle
    rw [takeBytes_add, byteLength_append]
    exact Nat.le_add_right _ _

/-- A cut of a front part is a cut of the text, at the end of the front part at the latest. -/
theorem takeBytes_takeBytes (n m : Nat) (cs : List Char) :
    takeBytes n (takeBytes m cs) = takeBytes (min n (byteLength (takeBytes m cs))) cs := by
  have hcs := takeBytes_append_dropBytes m cs
  rcases Nat.le_total n (byteLength (takeBytes m cs)) with hle | hle
  · have h := takeBytes_append_of_le hle (dropBytes m cs)
    rw [hcs] at h
    rw [Nat.min_eq_left hle, h]
  · have h := takeBytes_append (takeBytes m cs) (dropBytes m cs)
    rw [hcs, takeBytes_zero, List.append_nil] at h
    rw [Nat.min_eq_right hle, takeBytes_of_le hle, h]

end Text

namespace Token

/-- Tokens that fill a part of a text, from one boundary up to another: none of them is empty, each starts where
the one before it ends, and they are what the text shows there. -/
structure Covers (source : List Char) (start stop : Nat) (tokens : List Token) : Prop where
  consecutive : Consecutive start tokens
  first : ∀ t ∈ tokens.head?, t.start = start
  last : ∀ t ∈ tokens.getLast?, t.stop = stop
  nothing : tokens = [] ↔ start = stop
  boundaries : ∀ t ∈ tokens, Text.IsBoundary source t.start ∧ Text.IsBoundary source t.stop
  shown : ∀ t ∈ tokens, Text.slice t.start t.stop source = t.text
  whole : Text.slice start stop source = spelling tokens

/-- Tokens that spell a part of a text cover it. -/
theorem Consecutive.covers {before : List Char} {tokens : List Token}
    (h : Consecutive (Text.byteLength before) tokens) (after : List Char) :
    Covers (before ++ spelling tokens ++ after) (Text.byteLength before)
      (Text.byteLength (before ++ spelling tokens)) tokens where
  consecutive := h
  first := by
    intro t ht
    obtain ⟨rest, rfl⟩ := List.head?_eq_some_iff.mp ht
    simpa using @Consecutive.start_eq _ t [] rest h
  last := by
    intro t ht
    obtain ⟨front, rfl⟩ := List.getLast?_eq_some_iff.mp ht
    rw [stop, h.start_eq]
    simp [Nat.add_assoc]
  nothing := by
    constructor
    · rintro rfl
      simp
    · intro heq
      cases tokens with
      | nil => rfl
      | cons t tokens =>
        have := Text.byteLength_pos (h.filled t List.mem_cons_self)
        simp only [spelling_cons, Text.byteLength_append] at heq
        omega
  boundaries := by
    intro t ht
    obtain ⟨front, back, rfl⟩ := List.append_of_mem ht
    rw [stop, h.start_eq]
    refine ⟨⟨before ++ spelling front, t.text ++ spelling back ++ after, ?_, ?_⟩,
      before ++ spelling front ++ t.text, spelling back ++ after, ?_, ?_⟩
    all_goals simp [Nat.add_assoc]
  shown := by
    intro t ht
    obtain ⟨front, back, rfl⟩ := List.append_of_mem ht
    have hslice := Text.slice_append (before ++ spelling front) t.text (spelling back ++ after)
    rw [stop, h.start_eq]
    simpa [Nat.add_assoc] using hslice
  whole := by
    rw [Text.byteLength_append]
    exact Text.slice_append before (spelling tokens) after

end Token

namespace Tokenizer

/-- A scan ends where the text does. -/
theorem finish_offset (t : Tokenizer) : t.finish.offset = t.offset + Text.byteLength t.rest := by
  fun_induction steps t with
  | case1 t h => rw [finish_of_next?_eq_none h, rest_eq_nil h, Text.byteLength_nil, Nat.add_zero]
  | case2 t token u h ih =>
    obtain ⟨hstart, hstop, _, _⟩ := next?_place h
    rw [finish_of_next?_eq_some h, ih, hstop, Token.stop, hstart, ← next?_text h,
      Text.byteLength_append, Nat.add_assoc]

/-- The tokens of any part of a text cover it, from the last boundary that is not behind its start up to the
last one that is not behind its end. A start behind the end stands for the end. -/
theorem covers_within (source : List Char) (start stop : Nat) (mode : Mode) :
    ∃ s e, IsGreatest {n | Text.IsBoundary source n ∧ n ≤ stop} e ∧
      IsGreatest {n | Text.IsBoundary source n ∧ n ≤ min start e} s ∧
      Token.Covers source s e (within source start stop mode).tokens ∧
      (within source start stop mode).finish.offset = e := by
  have htext := Text.takeBytes_append_dropBytes start (Text.takeBytes stop source)
  have hsource := Text.takeBytes_append_dropBytes stop source
  have hstart := Text.isGreatest_byteLength_takeBytes
    (min start (Text.byteLength (Text.takeBytes stop source))) source
  rw [← Text.takeBytes_takeBytes] at hstart
  refine ⟨_, _, Text.isGreatest_byteLength_takeBytes stop source, hstart, ?_, ?_⟩
  · have hplaces : Token.Consecutive (Text.byteLength (Text.takeBytes start (Text.takeBytes stop source)))
        (within source start stop mode).tokens := tokens_consecutive (within source start stop mode)
    have hspelling : Token.spelling (within source start stop mode).tokens =
        Text.dropBytes start (Text.takeBytes stop source) :=
      spelling_tokens (within source start stop mode)
    have hcovers := hplaces.covers (Text.dropBytes stop source)
    rwa [hspelling, htext, hsource] at hcovers
  · rw [finish_offset, within, ← Text.byteLength_append, htext]

end Tokenizer

end VoiceScript
