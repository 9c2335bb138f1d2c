import VoiceScript.Proofs.LineLocal
import VoiceScript.Proofs.Runs

namespace VoiceScript

def Span.shift (n : Nat) (span : Span) : Span :=
  ⟨n + span.start, n + span.stop⟩

def Diagnostic.shift (n : Nat) (d : Diagnostic) : Diagnostic :=
  { d with span := d.span.shift n }

def Recast.shift (n : Nat) : Recast :=
  ⟨Token.shift n, true, fun _ => rfl⟩

/-- After whole lines, a text is cut into its own tokens. -/
theorem tokenize_append {a : List Char} (ha : ∀ t ∈ (tokenize a).getLast?, t.kind = .newline)
    (b : List Char) :
    tokenize (a ++ b) = tokenize a ++ (tokenize b).map (Token.shift (Text.byteLength a)) := by
  rcases List.eq_nil_or_concat (tokenize a) with hnil | ⟨before, nl, hlast⟩
  · have hempty : a = [] := by
      rw [← spelling_tokenize a, hnil]
      rfl
    rw [hnil, hempty, List.map_congr_left fun t _ => t.shift_zero]
    simp
  · rw [List.concat_eq_append] at hlast
    have hk : nl.kind = .newline := ha nl (by simp [hlast])
    have hmem : nl ∈ (Tokenizer.ofText a).tokens := by
      change nl ∈ tokenize a
      simp [hlast]
    have htext := Tokenizer.text_of_newline hmem hk
    have hsource : a = Token.spelling before ++ ['\n'] := by
      rw [← spelling_tokenize a, hlast, Token.spelling_append, Token.spelling_cons, htext]
      rfl
    have hc := tokenize_consecutive a
    rw [hlast] at hc
    have hstop : nl.stop = Text.byteLength a := by
      rw [Token.stop, hc.start_eq, htext, Nat.zero_add, ← Text.byteLength_append, ← hsource]
    have hrun : Tokenizer.tokens ⟨0, .initial, Token.spelling before ++ '\n' :: []⟩ =
        before ++ nl :: [] := by
      rw [← hsource]
      exact hlast
    have hshift := Tokenizer.tokens_shift nl.stop (.ofText b)
    have hcut := Tokenizer.tokens_newline hrun b
    rw [hlast, List.append_assoc, ← hstop]
    conv => lhs; rw [hsource, List.append_assoc]
    exact hcut.trans (congrArg (fun more => before ++ nl :: more) hshift)

theorem Recast.tokens_shift (n : Nat) (ts : List Token) :
    (shift n).tokens ts = ts.map (Token.shift n) := by
  simp [tokens, shift]

namespace Tree

/-- A tree further right by a number of bytes. -/
def shift (n : Nat) : Tree → Tree :=
  recast (.shift n)

theorem recastAll_shift (n : Nat) (trees : List Tree) : recastAll (.shift n) trees = trees.map (shift n) := by
  induction trees with
  | nil => simp
  | cons tree trees ih =>
    rw [recastAll, ih, List.map_cons]
    rfl

theorem extent_shift (n : Nat) (tokens : List Token) :
    extent (tokens.map (Token.shift n)) = (extent tokens).map (Span.shift n) := by
  rw [extent, extent, List.head?_map, List.getLast?_map]
  cases tokens.head? with
  | none => rfl
  | some first =>
    cases tokens.getLast? with
    | none => rfl
    | some last => simp [Span.shift, Token.shift, Token.stop, Nat.add_assoc]

end Tree

theorem Literal.diagnostic?_shift (n : Nat) (t : Token) :
    diagnostic? (t.shift n) = (diagnostic? t).map (Diagnostic.shift n) := by
  have hkind : (t.shift n).kind = t.kind := rfl
  have hspan : (t.shift n).span = t.span.shift n := by
    rw [Token.span, Token.stop_shift]
    rfl
  have hunclosed : unclosed? (t.shift n) = unclosed? t := rfl
  rw [diagnostic?, diagnostic?, hkind, hspan, hunclosed]
  split
  · rfl
  · rw [Option.map_map]
    rfl

theorem Literal.diagnostics_shift (n : Nat) (tokens : List Token) :
    (tokens.map (Token.shift n)).filterMap diagnostic? =
      (tokens.filterMap diagnostic?).map (Diagnostic.shift n) := by
  rw [List.filterMap_map, List.map_filterMap]
  congr 1
  funext t
  exact diagnostic?_shift n t

/-- The runs of dropped tokens move with their text. -/
theorem runSpans_shift (n : Nat) (children : List Tree) :
    runSpans (Tree.withoutTrivia (children.map (Tree.shift n))) =
      (runSpans (Tree.withoutTrivia children)).map (Span.shift n) := by
  rw [← Tree.recastAll_shift, runSpans, runs_recast, List.filterMap_map, runSpans, List.map_filterMap]
  congr 1
  funext run
  have hrun : Tree.leavesAll (run.map (Tree.recast (.shift n))) =
      (Tree.leavesAll run).map (Token.shift n) := by
    rw [← Recast.tokens_shift, ← Tree.leavesAll_recastAll, Tree.recastAll_shift]
    rfl
  rw [Function.comp_apply, hrun, Tree.extent_shift]

theorem unrecognized_append {a : List Char} {span : Span} (h : span.stop ≤ Text.byteLength a)
    (b : List Char) : unrecognized (a ++ b) span = unrecognized a span := by
  rw [unrecognized, unrecognized, Text.slice_append_of_le h]

theorem unrecognized_shift (a b : List Char) (span : Span) :
    unrecognized (a ++ b) (span.shift (Text.byteLength a)) =
      (unrecognized b span).shift (Text.byteLength a) := by
  rw [unrecognized, Span.shift, Text.slice_add]
  rfl

end VoiceScript
