import JsonPatch.Check
import JsonPatch.Proofs.Meaning
import JsonPatch.Proofs.Pointer.Ancestry
import JsonPatch.Proofs.Sample
import JsonPatch.Proofs.Unguarded.Application

namespace JsonPatch

namespace Pointer

/-- A pointer lies inside its parent, which is one token shorter. -/
theorem parent_laws {p parent : Pointer} (h : p.parent? = some parent) :
    p.isInside parent = true ∧ parent.tokens.length + 1 = p.tokens.length := by
  obtain ⟨last, hlast⟩ := exists_last_of_parent h
  refine ⟨(isInside_iff p parent).mpr ⟨[last], List.cons_ne_nil last [], hlast⟩, ?_⟩
  rw [hlast, List.length_append, List.length_singleton]

/-- A pointer that was read is spelled by its tokens, and the spelling is read as an equal one. -/
theorem spelling_laws {text : String} {p : Pointer} (h : parse text = .ok p) :
    ∃ spelled again, ofTokens p.tokens = .ok spelled ∧ parse spelled.raw = .ok again ∧
      again.same p = true := by
  have htokens := token_ne_empty_of_parse h
  refine ⟨spell p.tokens, spell p.tokens, ?_, spelled_spell htokens, beq_self_eq_true p.tokens⟩
  exact (ofTokens_eq_ok_iff p.tokens _).mpr ⟨htokens, rfl⟩

end Pointer

namespace Check

theorem pointerText_eq_ok (text : String) : pointerText text = .ok () := by
  unfold pointerText
  cases hparse : Pointer.parse text with
  | error e => rfl
  | ok p =>
    obtain ⟨spelled, again, hspelled, hagain, hsame⟩ := Pointer.spelling_laws hparse
    simp only [hspelled, hagain, hsame]
    cases hparent : p.parent? with
    | none => rfl
    | some parent =>
      obtain ⟨hinside, hlength⟩ := Pointer.parent_laws hparent
      simp only [hinside, hlength, Bool.not_true, Bool.false_eq_true, if_false, ne_eq,
        not_true_eq_false]
      rfl

theorem pointer_eq_ok (bytes : List UInt8) : pointer bytes = .ok () := by
  unfold pointer
  cases text? bytes with
  | none => rfl
  | some text => exact pointerText_eq_ok text

theorem applyFrom_test_self (document : Node) (index : Nat) :
    (Patch.applyFrom index [.test Pointer.root document] document).outcome = .ok document := by
  have hself : ((Operation.test Pointer.root document).apply document).outcome = .ok document := by
    rw [Operation.apply_test_eq_ok_iff]
    exact ⟨rfl, document, rfl, document.same_self⟩
  rw [Patch.applyFrom_cons_outcome, hself]
  rfl

/-- The single test makes a patch, and the document passes it. -/
theorem testsItself_outcome (document : Node) : (testsItself document).outcome = .ok () := by
  have hmade : Patch.ofOperations [.test Pointer.root document] =
      .ok ⟨[.test Pointer.root document], by simp⟩ := rfl
  simp only [testsItself, hmade, Patch.apply, Traced.outcome_bind, Traced.outcome_attempt,
    applyFrom_test_self]
  rfl

/-- Operations that make no patch are not run, and a run leaves the document equal to itself. -/
theorem runsThrough_outcome (operations : List Operation) (document : Node) :
    (runsThrough operations document).outcome = .ok () := by
  unfold runsThrough
  cases Patch.ofOperations operations with
  | error cause => rfl
  | ok patch =>
    simp only [Traced.outcome_bind, Traced.outcome_attempt, document.same_self, if_true]
    rfl

theorem application_outcome (bytes : List UInt8) : (application bytes).outcome = .ok () := by
  unfold application
  cases Sample.document Sample.deepest bytes with
  | none => rfl
  | some drawn =>
    obtain ⟨document, rest⟩ := drawn
    simp only [Traced.outcome_bind, testsItself_outcome]
    cases Sample.operations document rest with
    | none => rfl
    | some drawn => exact runsThrough_outcome drawn.1 document

end Check

namespace Unguarded

/-- A run of operations that there are misses no step. -/
theorem run_of_obtainable {document : Node} (hordered : document.Ordered)
    {operations : List FlatOperation} (h : ∀ o ∈ operations, o.Obtainable) {halt : Halt ApplyError}
    (hhalt : run operations document = .error halt) : ∃ cause, halt = .fault cause := by
  obtain ⟨plain, hplain, rfl⟩ := FlatOperation.exists_map_flat h
  rw [run_flat hplain hordered 0] at hhalt
  obtain ⟨cause, -, hcause⟩ := eq_fault_of_inRange hhalt
  exact ⟨cause, hcause⟩

/-- No run of obtainable operations on a document with names in order misses a step, and no bytes
break a law of pointers or of application. -/
theorem application_misses_no_step :
    (∀ operation : FlatOperation, operation.Obtainable →
      (operation.source?.isSome = true ↔ operation.kind = .move ∨ operation.kind = .copy)) ∧
    (∀ (document : Node) (operations : List FlatOperation), document.Ordered →
      (∀ o ∈ operations, o.Obtainable) →
      ∀ halt, run operations document = .error halt → ∃ cause, halt = .fault cause) ∧
    (∀ (document : Node) (patch : Patch), document.Ordered → patch.Obtainable →
      (∀ o ∈ patch.operations, o.flat.Obtainable) ∧
      run (patch.operations.map Operation.flat) document = inRange (patch.apply document).outcome) ∧
    (∀ (bytes rest : List UInt8) (document : Node),
      Sample.document Sample.deepest bytes = some (document, rest) →
      document.Ordered ∧ ∀ (operations : List Operation) (left : List UInt8),
        Sample.operations document rest = some (operations, left) →
        ∀ o ∈ operations, o.flat.Obtainable) ∧
    (∀ (text : String) (p : Pointer), Pointer.parse text = .ok p →
      (∃ spelled again, Pointer.ofTokens p.tokens = .ok spelled ∧
        Pointer.parse spelled.raw = .ok again ∧ again.same p = true) ∧
      ∀ parent, p.parent? = some parent →
        p.isInside parent = true ∧ parent.tokens.length + 1 = p.tokens.length) ∧
    (∀ document : Node, document.same document = true ∧
      (Check.testsItself document).outcome = .ok () ∧
      ∀ operations, (Check.runsThrough operations document).outcome = .ok ()) ∧
    (∀ bytes, Check.pointer bytes = .ok () ∧ (Check.application bytes).outcome = .ok ()) := by
  refine ⟨?_, ?_, ?_, ?_, ?_, ?_, ?_⟩
  · intro operation hoperation
    rw [hoperation.source_isSome]
    cases operation.kind <;> decide
  · intro document operations hordered hoperations halt hhalt
    exact run_of_obtainable hordered hoperations hhalt
  · intro document patch hordered hpatch
    refine ⟨?_, run_flat hpatch.operations hordered 0⟩
    intro o ho
    exact FlatOperation.obtainable_flat (hpatch.operations o ho)
  · intro bytes rest document hdocument
    have hordered := Sample.document_yields Sample.deepest bytes document rest hdocument
    refine ⟨hordered, ?_⟩
    intro operations left hoperations o ho
    have hall := Sample.operations_yields document rest operations left hoperations
    exact FlatOperation.obtainable_flat (hall o ho)
  · intro text p hparse
    exact ⟨Pointer.spelling_laws hparse, fun parent => Pointer.parent_laws⟩
  · intro document
    refine ⟨document.same_self, Check.testsItself_outcome document, ?_⟩
    intro operations
    exact Check.runsThrough_outcome operations document
  · intro bytes
    exact ⟨Check.pointer_eq_ok bytes, Check.application_outcome bytes⟩

/-- An element removed behind the last one of an array is a fault. A move without a source, and a
descent from the root, would miss a step. -/
theorem application_misses_no_step_past_end :
    let document := Node.array [.null]
    let past : Pointer := ⟨"/1", ["1"]⟩
    let patch : Patch := ⟨[.remove past], by simp⟩
    document.Ordered ∧ patch.Obtainable ∧
      run [.remove past] document =
        .error (.fault (.location (.indexOutOfBounds "/1" "1" 1))) ∧
      run [⟨.move, past, .null, none⟩] document = .error (.noSource .move) ∧
      navigate "" [] (removeChild "") 0 document = .error (.outOfRange 0 0) := by
  intro document past patch
  have hordered : document.Ordered := ⟨trivial, trivial⟩
  have hpast : past.Obtainable := .parse (show Pointer.parse "/1" = .ok past from rfl)
  have hremove : (Operation.remove past).Obtainable := (Operation.obtainable_iff _).mpr hpast
  have hpatch : patch.Obtainable := by
    refine .built (fun operation hoperation => ?_) (show Patch.ofOperations [.remove past] = _ from rfl)
    rwa [List.mem_singleton.mp hoperation]
  have hrun := (application_misses_no_step.2.2.1 document patch hordered hpatch).2
  exact ⟨hordered, hpatch, hrun, rfl, navigate_root "" (removeChild "") document⟩

end Unguarded

end JsonPatch
