import VoiceScript.Proofs.CommentedLine
import VoiceScript.Proofs.EditList
import VoiceScript.Proofs.Lines

namespace VoiceScript

namespace Line

theorem Joinable.mapIdx {lines : List Line} (h : Joinable lines) {edit : Nat → Line → Line}
    (hterminator : ∀ n line, (edit n line).terminator = line.terminator)
    (hcontent : ∀ n line, '\n' ∉ line.content → '\n' ∉ (edit n line).content) :
    Joinable (lines.mapIdx edit) := by
  induction h generalizing edit with
  | @last content hn =>
    have hedit := hterminator 0 ⟨content, .none⟩
    have hnewline := hcontent 0 ⟨content, .none⟩ hn
    rw [List.mapIdx_cons, List.mapIdx_nil]
    generalize edit 0 ⟨content, .none⟩ = edited at hedit hnewline
    obtain ⟨_, _⟩ := edited
    cases hedit
    exact .last hnewline
  | @cons line lines hn ht rest ih =>
    rw [List.mapIdx_cons]
    apply Joinable.cons (hcontent 0 line hn)
    · rwa [hterminator]
    · exact ih (fun n => hterminator (n + 1)) (fun n => hcontent (n + 1))

end Line

namespace Comment

variable {source result : List Char} {lines : List Line} {request : Request} {n m : Nat}

@[simp] theorem Plan.length_apply (plan : Plan) (lines : List Line) :
    (plan.apply lines).length = lines.length :=
  List.length_mapIdx

theorem Plan.getElem?_apply_of_targets {plan : Plan} (h : plan.targets n = true) (lines : List Line) :
    (plan.apply lines)[n]? = lines[n]?.map fun line =>
      { line with content := plan.direction.edit line.content } := by
  simp only [Plan.apply, List.getElem?_mapIdx, h, if_true]

theorem Plan.getElem?_apply_of_not_targets {plan : Plan} (h : plan.targets n = false)
    (lines : List Line) : (plan.apply lines)[n]? = lines[n]? := by
  simp [Plan.apply, List.getElem?_mapIdx, h]

theorem Plan.map_terminator_apply (plan : Plan) (lines : List Line) :
    (plan.apply lines).map Line.terminator = lines.map Line.terminator := by
  apply List.ext_getElem?
  intro n
  rw [List.getElem?_map, List.getElem?_map]
  cases h : plan.targets n with
  | true => rw [getElem?_apply_of_targets h, Option.map_map]; rfl
  | false => rw [getElem?_apply_of_not_targets h]

theorem Plan.passes_apply_of_targets {plan : Plan} (h : plan.targets n = true)
    (test : List Char → Bool) (lines : List Line) :
    Line.passes test (plan.apply lines) n =
      Line.passes (fun line => test (plan.direction.edit line)) lines n := by
  rw [Line.passes, Line.passes, Line.content?, Line.content?, getElem?_apply_of_targets h,
    Option.map_map, Option.any_map, Option.any_map]
  rfl

theorem Plan.passes_apply_of_not_targets {plan : Plan} (h : plan.targets n = false)
    (test : List Char → Bool) (lines : List Line) :
    Line.passes test (plan.apply lines) n = Line.passes test lines n := by
  rw [Line.passes, Line.passes, Line.content?, Line.content?, getElem?_apply_of_not_targets h]

theorem Plan.joinable_apply (plan : Plan) (h : Line.Joinable lines) :
    Line.Joinable (plan.apply lines) := by
  apply h.mapIdx
  · intro n line
    split <;> rfl
  · intro n line hn
    split
    · exact newline_not_mem_edit plan.direction hn
    · exact hn

theorem apply_eq_ok_iff :
    apply source request = .ok result ↔
      missing? (Line.ofText source).length request = none ∧
        result = Line.join ((plan (Line.ofText source) request).apply (Line.ofText source)) := by
  rw [apply_eq]
  cases missing? (Line.ofText source).length request with
  | none => simp [eq_comm]
  | some n => simp

theorem apply_eq_error_iff {e : OutOfRange} :
    apply source request = .error e ↔
      missing? (Line.ofText source).length request = some e.line ∧
        e.lineCount = (Line.ofText source).length := by
  obtain ⟨n, count⟩ := e
  rw [apply_eq]
  cases missing? (Line.ofText source).length request with
  | none => simp
  | some n => simp [eq_comm]

/-- The lines of the new text are those of the old with the edits made. -/
theorem ofText_apply (h : apply source request = .ok result) :
    Line.ofText result =
      ((plan (Line.ofText source) request).apply (Line.ofText source)).map Line.settle := by
  rw [(apply_eq_ok_iff.mp h).2, Line.ofText_join (Plan.joinable_apply _ (Line.joinable_ofText source))]

/-- The lines that a request targets. -/
inductive Targets (lines : List Line) : Request → Nat → Prop
  | line {n : Nat} : Targets lines (.line n) n
  | caret {ns : List Nat} {m : Nat} (h : m ∈ ns) : Targets lines (.carets ns) m
  | selected {a b m : Nat} (ha : min a b ≤ m) (hb : m ≤ max a b) : Targets lines (.selection a b) m
  | inRule {n m : Nat} {rule : LineRange} (found : Outline.findRule? lines n = some rule)
      (h : rule.contains m = true) : Targets lines (.rule n) m
  | commentedOut {n m : Nat} (hnone : Outline.findRule? lines n = none)
      (h : (commentedRule lines n).contains m = true) : Targets lines (.rule n) m
  | fromHeader {n m : Nat} (header : ((Line.content? lines n).any Outline.isHeader) = true)
      (h : Targets lines (.rule n) m) : Targets lines (.smart n) m
  | offHeader {n : Nat} (header : ((Line.content? lines n).any Outline.isHeader) = false) :
      Targets lines (.smart n) n

theorem targets_rule_iff :
    Targets lines (.rule n) m ↔ (planRule lines n).targets m = true := by
  rw [planRule]
  cases hfind : Outline.findRule? lines n with
  | none =>
    constructor
    · intro h
      cases h with
      | inRule found _ => rw [hfind] at found; cases found
      | commentedOut _ h => exact h
    · exact .commentedOut hfind
  | some rule =>
    constructor
    · intro h
      cases h with
      | inRule found h => rw [hfind] at found; cases found; exact h
      | commentedOut hnone _ => rw [hfind] at hnone; cases hnone
    · exact .inRule hfind

theorem isHeader_content? (lines : List Line) (n : Nat) :
    Outline.isHeader ((Line.content? lines n).getD []) =
      (Line.content? lines n).any Outline.isHeader := by
  cases Line.content? lines n with
  | none => rfl
  | some content => rfl

/-- The plan of a request edits the lines that the request targets. -/
theorem targets_iff : Targets lines request m ↔ (plan lines request).targets m = true := by
  cases request with
  | line n =>
    rw [plan, beq_iff_eq]
    constructor
    · rintro ⟨⟩
      rfl
    · rintro rfl
      exact .line
  | carets ns =>
    rw [plan, List.contains_iff_mem]
    constructor
    · intro h
      cases h with
      | caret h => exact h
    · exact .caret
  | selection a b =>
    rw [plan]
    simp only [LineRange.contains, Bool.and_eq_true, decide_eq_true_eq]
    constructor
    · intro h
      cases h with
      | selected ha hb => exact ⟨ha, hb⟩
    · rintro ⟨ha, hb⟩
      exact .selected ha hb
  | rule n => exact targets_rule_iff
  | smart n =>
    rw [plan, isHeader_content?]
    cases hheader : (Line.content? lines n).any Outline.isHeader with
    | true =>
      rw [if_pos rfl, ← targets_rule_iff]
      constructor
      · intro h
        cases h with
        | fromHeader _ h => exact h
        | offHeader header => rw [hheader] at header; cases header
      · exact .fromHeader hheader
    | false =>
      rw [if_neg (by simp), beq_iff_eq]
      constructor
      · intro h
        cases h with
        | fromHeader header _ => rw [hheader] at header; cases header
        | offHeader _ => rfl
      · rintro rfl
        exact .offHeader hheader

theorem length_ofText_apply (h : apply source request = .ok result) :
    (Line.ofText result).length = (Line.ofText source).length := by
  rw [ofText_apply h, List.length_map, Plan.length_apply]

/-- A line that a request does not target is there in the new text as it was. -/
theorem getElem?_ofText_apply (h : apply source request = .ok result)
    (hn : ¬ Targets (Line.ofText source) request n) :
    (Line.ofText result)[n]? = (Line.ofText source)[n]? := by
  have huntargeted := Bool.eq_false_iff.mpr (mt targets_iff.mpr hn)
  rw [ofText_apply h, List.getElem?_map, Plan.getElem?_apply_of_not_targets huntargeted]
  cases hline : (Line.ofText source)[n]? with
  | none => rfl
  | some line =>
    rw [Option.map_some, Line.settle_of_mem_ofText (List.mem_of_getElem? hline)]

theorem exists_apply_iff (source : List Char) (request : Request) :
    (∃ result, apply source request = .ok result) ↔
      ∀ n ∈ request.named, n < (Line.ofText source).length := by
  rw [← missing?_eq_none_iff]
  simp [apply_eq_ok_iff]

end Comment

namespace Editing

variable {document : List Char} {outcome : Outcome} {request : Comment.Request}
  {requests : List Comment.Request}

theorem document_ofStep_of_error {e : Comment.OutOfRange}
    (h : Comment.apply document request = .error e) :
    (Outcome.ofStep document (.comment request)).document = document := by
  rw [Outcome.ofStep, step, h]
  rfl

theorem length_ofStep (document : List Char) (request : Comment.Request) :
    (Line.ofText (Outcome.ofStep document (.comment request)).document).length =
      (Line.ofText document).length := by
  simp only [Outcome.ofStep, step]
  cases h : Comment.apply document request with
  | error e => rfl
  | ok result => exact Comment.length_ofText_apply h

/-- Requests for comments keep the number of lines, one after the other. -/
theorem length_run (h : outcome ∈ run document (requests.map .comment)) :
    (Line.ofText outcome.document).length = (Line.ofText document).length := by
  induction requests generalizing document with
  | nil => cases h
  | cons request requests ih =>
    rw [List.map_cons, run] at h
    rcases List.mem_cons.mp h with rfl | h
    · exact length_ofStep document request
    · exact (ih h).trans (length_ofStep document request)

end Editing

/-- A request for comments fails if it names a line that is not there, and reports the first such line
and the number of lines. Otherwise the new text has as many lines, and those that are not targeted keep
content and end. A request that fails leaves the document of a session as it was. So no session of requests
changes the number of lines, and a request whose lines are there at the start never fails on the way. -/
theorem comments_frame (source : List Char) :
    (∀ request, (∃ e, Comment.apply source request = .error e) ↔
      ∃ n ∈ request.named, (Line.ofText source).length ≤ n) ∧
    (∀ request e, Comment.apply source request = .error e →
      e.lineCount = (Line.ofText source).length ∧
        e.line ∈ request.named ∧ (Line.ofText source).length ≤ e.line ∧
        ∀ n ∈ request.named, (Line.ofText source).length ≤ n → e.line ≤ n) ∧
    (∀ request result, Comment.apply source request = .ok result →
      (Line.ofText result).length = (Line.ofText source).length ∧
        ∀ n, ¬ Comment.Targets (Line.ofText source) request n →
          (Line.ofText result)[n]? = (Line.ofText source)[n]?) ∧
    (∀ request e, Comment.apply source request = .error e →
      (Editing.Outcome.ofStep source (.comment request)).document = source) ∧
    ∀ requests : List Comment.Request, ∀ outcome ∈ Editing.run source (requests.map .comment),
      (Line.ofText outcome.document).length = (Line.ofText source).length ∧
        ∀ later : Comment.Request, (∀ n ∈ later.named, n < (Line.ofText source).length) →
          ∃ result, Comment.apply outcome.document later = .ok result := by
  refine ⟨?_, ?_, ?_, ?_, ?_⟩
  · intro request
    have hok := Comment.exists_apply_iff source request
    cases h : Comment.apply source request with
    | error e =>
      rw [h] at hok
      simpa using hok
    | ok result =>
      rw [h] at hok
      simpa using hok
  · intro request e h
    obtain ⟨hmissing, hcount⟩ := Comment.apply_eq_error_iff.mp h
    exact ⟨hcount, Comment.missing?_eq_some_iff.mp hmissing⟩
  · intro request result h
    exact ⟨Comment.length_ofText_apply h, fun n => Comment.getElem?_ofText_apply h⟩
  · intro request e h
    exact Editing.document_ofStep_of_error h
  · intro requests outcome h
    have hlength := Editing.length_run h
    refine ⟨hlength, ?_⟩
    intro later hlater
    rw [Comment.exists_apply_iff, hlength]
    exact hlater

end VoiceScript
