import JsonPatch.Traced

namespace JsonPatch

variable {ε δ α β : Type}

theorem bind_eq_ok {x : Except ε α} {f : α → Except ε β} {b : β} :
    (x >>= f) = .ok b ↔ ∃ a, x = .ok a ∧ f a = .ok b := by
  cases x with
  | ok a =>
    constructor
    · intro h
      exact ⟨a, rfl, h⟩
    · intro h
      obtain ⟨_, ha, h⟩ := h
      cases ha
      exact h
  | error e =>
    constructor
    · intro h
      cases h
    · intro h
      obtain ⟨_, ha, _⟩ := h
      cases ha

theorem bind_eq_error {x : Except ε α} {f : α → Except ε β} {e : ε} :
    (x >>= f) = .error e ↔ x = .error e ∨ ∃ a, x = .ok a ∧ f a = .error e := by
  cases x with
  | ok a =>
    constructor
    · intro h
      exact .inr ⟨a, rfl, h⟩
    · intro h
      rcases h with h | ⟨_, ha, h⟩
      · cases h
      · cases ha
        exact h
  | error d =>
    constructor
    · intro h
      cases h
      exact .inl rfl
    · intro h
      rcases h with h | ⟨_, ha, _⟩
      · cases h
        rfl
      · cases ha

theorem mapError_eq_ok {x : Except ε α} {f : ε → δ} {a : α} :
    x.mapError f = .ok a ↔ x = .ok a := by
  cases x with
  | ok b =>
    constructor
    · intro h
      cases h
      rfl
    · intro h
      cases h
      rfl
  | error e =>
    constructor
    · intro h
      cases h
    · intro h
      cases h

theorem mapError_eq_error {x : Except ε α} {f : ε → δ} {e : δ} :
    x.mapError f = .error e ↔ ∃ cause, x = .error cause ∧ f cause = e := by
  cases x with
  | ok a =>
    constructor
    · intro h
      cases h
    · intro h
      obtain ⟨_, hcause, _⟩ := h
      cases hcause
  | error cause =>
    constructor
    · intro h
      cases h
      exact ⟨cause, rfl, rfl⟩
    · intro h
      obtain ⟨_, hcause, he⟩ := h
      cases hcause
      cases he
      rfl

namespace Traced

@[simp]
theorem outcome_pure (value : α) : (pure value : Traced ε α).outcome = .ok value := rfl

@[simp]
theorem outcome_fail (error : ε) : (fail error : Traced ε α).outcome = .error error := rfl

@[simp]
theorem outcome_report (event : Event) : (report event : Traced ε Unit).outcome = .ok () := rfl

@[simp]
theorem outcome_ofExcept (outcome : Except ε α) : (ofExcept outcome).outcome = outcome := rfl

@[simp]
theorem outcome_mapError (f : ε → δ) (x : Traced ε α) :
    (x.mapError f).outcome = x.outcome.mapError f := rfl

@[simp]
theorem outcome_attempt (x : Traced ε α) : (x.attempt : Traced δ _).outcome = .ok x.outcome := rfl

/-- The outcomes of two computations in a row depend on nothing that they report. -/
@[simp]
theorem outcome_bind (x : Traced ε α) (f : α → Traced ε β) :
    (x >>= f).outcome = x.outcome >>= fun value => (f value).outcome := by
  change (andThen x f).outcome = _
  unfold andThen
  cases x.outcome <;> rfl

theorem bind_of_ok {x : Traced ε α} {value : α} (h : x.outcome = .ok value)
    (f : α → Traced ε β) :
    x >>= f = ⟨x.events ++ (f value).events, (f value).outcome⟩ := by
  change andThen x f = _
  rw [andThen, h]

theorem bind_of_error {x : Traced ε α} {error : ε} (h : x.outcome = .error error)
    (f : α → Traced ε β) : x >>= f = ⟨x.events, .error error⟩ := by
  change andThen x f = _
  rw [andThen, h]

@[simp]
theorem fail_bind (error : ε) (f : α → Traced ε β) : fail error >>= f = fail error := rfl

@[simp]
theorem ofExcept_ok (value : α) : (ofExcept (.ok value) : Traced ε α) = pure value := rfl

@[simp]
theorem ofExcept_error (error : ε) : (ofExcept (.error error) : Traced ε α) = fail error := rfl

/-- Events are appended, so it does not matter how computations in a row are grouped. -/
instance : LawfulMonad (Traced ε) := LawfulMonad.mk' (Traced ε)
  (by
    intro α x
    obtain ⟨events, outcome⟩ := x
    cases outcome with
    | ok value =>
      change (⟨events ++ [], .ok value⟩ : Traced ε α) = _
      rw [List.append_nil]
    | error error => rfl)
  (by
    intro α β value f
    change (⟨[] ++ (f value).events, (f value).outcome⟩ : Traced ε β) = f value
    rw [List.nil_append])
  (by
    intro α β γ x f g
    obtain ⟨events, outcome⟩ := x
    cases outcome with
    | error error => rfl
    | ok value =>
      change andThen (andThen ⟨events, .ok value⟩ f) g = andThen ⟨events, .ok value⟩ _
      simp only [andThen]
      cases hf : (f value).outcome with
      | error error => simp [bind, andThen, hf]
      | ok next => simp [bind, andThen, hf, List.append_assoc])

end Traced

end JsonPatch
