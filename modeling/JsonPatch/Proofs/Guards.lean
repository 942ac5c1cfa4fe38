import JsonPatch.Proofs.Changes

namespace JsonPatch

/-- Whether a fault is the refusal of a test. -/
def ApplyError.IsRefusal : ApplyError → Prop
  | .location _ => False
  | .noValue .. | .unequal .. => True

/-- How a run with guards ends, compared with the run that has none: alike, or refused. -/
inductive EndsGuarded (bare : Except ApplyError Node) : Except ApplyError Node → Prop where
  | passed : EndsGuarded bare bare
  | refused {e : ApplyError} : e.IsRefusal → EndsGuarded bare (.error e)

namespace EndsGuarded

/-- A first step that both runs take does not change how they compare. -/
theorem bind {x : Except ApplyError Node} {bare guarded : Node → Except ApplyError Node}
    (h : ∀ document, EndsGuarded (bare document) (guarded document)) :
    EndsGuarded (x >>= bare) (x >>= guarded) := by
  cases x with
  | ok document => exact h document
  | error e => exact .passed

theorem bare_of_ok {bare : Except ApplyError Node} {result : Node}
    (h : EndsGuarded bare (.ok result)) : bare = .ok result := by
  cases h
  rfl

theorem bare_of_error {bare : Except ApplyError Node} {e : ApplyError}
    (h : EndsGuarded bare (.error e)) (hnot : ¬e.IsRefusal) : bare = .error e := by
  cases h with
  | passed => rfl
  | refused hrefused => exact absurd hrefused hnot

theorem of_bare_ok {guarded : Except ApplyError Node} {result : Node}
    (h : EndsGuarded (.ok result) guarded) :
    guarded = .ok result ∨ ∃ e, guarded = .error e ∧ e.IsRefusal := by
  cases h with
  | passed => exact .inl rfl
  | refused hrefused => exact .inr ⟨_, rfl, hrefused⟩

end EndsGuarded

namespace Node

/-- A test fails only with a refusal, whatever keeps its pointer from leading anywhere. -/
theorem isRefusal_of_test {document expected : Node} {pointer : Pointer} {e : ApplyError}
    (h : document.test pointer expected = .error e) : e.IsRefusal := by
  unfold test at h
  cases hfound : document.lookup pointer with
  | error cause =>
    rw [hfound] at h
    cases h
    trivial
  | ok found =>
    simp only [hfound] at h
    split at h
    · cases h
    · cases h
      trivial

end Node

namespace Operation

/-- A test passes the document on, or refuses it. -/
theorem apply_test_cases (document : Node) (path : Pointer) (expected : Node) :
    ((test path expected).apply document).outcome = .ok document ∨
      ∃ e, ((test path expected).apply document).outcome = .error e ∧ e.IsRefusal := by
  simp only [apply, Traced.outcome_bind, Traced.outcome_ofExcept, Traced.outcome_pure]
  cases htest : document.test path expected with
  | ok _ => exact .inl rfl
  | error e => exact .inr ⟨e, rfl, Node.isRefusal_of_test htest⟩

theorem location_of_mapError {x : Except LocationError Node} {e : ApplyError}
    (h : x.mapError ApplyError.location = .error e) : ∃ cause, e = .location cause := by
  cases x with
  | ok value => cases h
  | error cause =>
    cases h
    exact ⟨cause, rfl⟩

/-- All faults of the other operations are faults of a location. -/
theorem not_isRefusal_of_apply {document : Node} {operation : Operation} {e : ApplyError}
    (hkind : operation.kind ≠ .test) (h : (operation.apply document).outcome = .error e) :
    ¬e.IsRefusal := by
  have hlocation : ∃ cause, e = .location cause := by
    cases operation with
    | test path expected => exact absurd rfl hkind
    | _ => exact location_of_mapError h
  obtain ⟨cause, rfl⟩ := hlocation
  exact id

end Operation

namespace Patch

/-- The operations that change a document. -/
def withoutTests (operations : List Operation) : List Operation :=
  operations.filter fun operation => operation.kind ≠ .test

/-- By induction on the operations: a test that passes hands on the document that the run without it
has at that point, and the other operations are steps of both runs. -/
theorem endsGuarded_applyFrom (operations : List Operation) (i j : Nat) (document : Node) :
    EndsGuarded (applyFrom j (withoutTests operations) document).outcome
      (applyFrom i operations document).outcome := by
  induction operations generalizing i j document with
  | nil => exact .passed
  | cons operation operations ih =>
    rw [applyFrom_cons_outcome]
    by_cases htest : operation.kind = .test
    · have hskip : withoutTests (operation :: operations) = withoutTests operations :=
        List.filter_cons_of_neg (by simpa using htest)
      rw [hskip]
      cases operation with
      | test path expected =>
        rcases Operation.apply_test_cases document path expected with hpassed | ⟨e, he, hrefused⟩
        · rw [hpassed]
          exact ih (i + 1) j document
        · rw [he]
          exact .refused hrefused
      | _ => cases htest
    · have hkeep : withoutTests (operation :: operations) =
          operation :: withoutTests operations := List.filter_cons_of_pos (by simpa using htest)
      rw [hkeep, applyFrom_cons_outcome]
      exact EndsGuarded.bind fun next => ih (i + 1) (j + 1) next

/-- A run ends as it does without its tests, unless a test refuses, and no operation of another kind
refuses. -/
theorem tests_are_guards (operations : List Operation) (i j : Nat) (document : Node) :
    (∀ result, (applyFrom i operations document).outcome = .ok result →
      (applyFrom j (withoutTests operations) document).outcome = .ok result) ∧
    (∀ result, (applyFrom j (withoutTests operations) document).outcome = .ok result →
      (applyFrom i operations document).outcome = .ok result ∨
        ∃ e, (applyFrom i operations document).outcome = .error e ∧ e.IsRefusal) ∧
    (∀ e, (applyFrom i operations document).outcome = .error e → ¬e.IsRefusal →
      (applyFrom j (withoutTests operations) document).outcome = .error e) ∧
    (∀ (path : Pointer) (expected : Node),
      (∀ result, ((Operation.test path expected).apply document).outcome = .ok result ↔
        result = document ∧
          ∃ found, document.lookup path = .ok found ∧ found.same expected = true) ∧
      ∀ e, ((Operation.test path expected).apply document).outcome = .error e → e.IsRefusal) ∧
    ∀ operation : Operation, operation.kind ≠ .test →
      ∀ e, (operation.apply document).outcome = .error e → ¬e.IsRefusal := by
  have hrun := endsGuarded_applyFrom operations i j document
  refine ⟨?_, ?_, ?_, ?_, ?_⟩
  · intro result hresult
    rw [hresult] at hrun
    exact hrun.bare_of_ok
  · intro result hbare
    rw [hbare] at hrun
    exact hrun.of_bare_ok
  · intro e he hnot
    rw [he] at hrun
    exact hrun.bare_of_error hnot
  · intro path expected
    refine ⟨Operation.apply_test_eq_ok_iff document path expected, ?_⟩
    intro e he
    rcases Operation.apply_test_cases document path expected with hpassed | ⟨f, hf, hrefused⟩
    · rw [he] at hpassed
      cases hpassed
    · rw [he] at hf
      cases hf
      exact hrefused
  · intro operation hkind e he
    exact Operation.not_isRefusal_of_apply hkind he

/-- A test that passes, the removal of what it looked at, and the same test again, which refuses. -/
theorem tests_are_guards_around_removal :
    let document := Node.object [("a", .bool true)]
    let path : Pointer := ⟨"/a", ["a"]⟩
    let operations := [.test path (.bool true), .remove path, .test path (.bool true)]
    (applyFrom 0 (withoutTests operations) document).outcome = .ok (.object []) ∧
      ∃ e, (applyFrom 0 operations document).outcome = .error e ∧ e.IsRefusal := by
  intro document path operations
  have hbare : (applyFrom 0 (withoutTests operations) document).outcome = .ok (.object []) := rfl
  have hguarded := (tests_are_guards operations 0 0 document).2.1 _ hbare
  rcases hguarded with hpassed | hrefused
  · cases hpassed
  · exact ⟨hbare, hrefused⟩

end Patch

end JsonPatch
