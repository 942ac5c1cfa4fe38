import JsonPatch.Proofs.Reports

namespace JsonPatch

namespace Event

/-- The operation that a report announces, with its number. -/
def announced? : Event → Option (Operation × Nat)
  | applying index operation => some (operation, index)
  | _ => none

/-- The report under another number, if it announces an operation. -/
def renumbered (index : Nat) : Event → Event
  | applying _ operation => applying index operation
  | event => event

theorem renumbered_of_announced? {event : Event} (h : event.announced? = none) (index : Nat) :
    event.renumbered index = event := by
  cases event with
  | applying i operation => cases h
  | _ => rfl

end Event

namespace Traced

variable {ε δ α β : Type}

/-- Whether a computation announces no operation. -/
def Quiet (x : Traced ε α) : Prop := ∀ event ∈ x.events, event.announced? = none

theorem quiet_pure (value : α) : (pure value : Traced ε α).Quiet := List.forall_mem_nil _

theorem quiet_fail (error : ε) : (fail error : Traced ε α).Quiet := List.forall_mem_nil _

theorem quiet_ofExcept (outcome : Except ε α) : (ofExcept outcome).Quiet := List.forall_mem_nil _

theorem quiet_of_silent {x : Traced ε α} (h : x.events = []) : x.Quiet := by
  rw [Quiet, h]
  exact List.forall_mem_nil _

theorem quiet_report {event : Event} (h : event.announced? = none) :
    (report event : Traced ε Unit).Quiet := List.forall_mem_singleton.mpr h

theorem Quiet.mapError {x : Traced ε α} (h : x.Quiet) (f : ε → δ) : (x.mapError f).Quiet := h

theorem Quiet.bind {x : Traced ε α} {f : α → Traced ε β} (hx : x.Quiet)
    (hf : ∀ value, (f value).Quiet) : (x >>= f).Quiet := by
  cases hvalue : x.outcome with
  | ok value =>
    rw [bind_of_ok hvalue]
    exact List.forall_mem_append.mpr ⟨hx, hf value⟩
  | error e =>
    rw [bind_of_error hvalue]
    exact hx

theorem Quiet.announced {x : Traced ε α} (h : x.Quiet) :
    x.events.filterMap Event.announced? = [] := List.filterMap_eq_nil_iff.mpr h

theorem Quiet.renumbered {x : Traced ε α} (h : x.Quiet) (index : Nat) :
    x.events.map (Event.renumbered index) = x.events := by
  rw [List.map_congr_left fun event he => Event.renumbered_of_announced? (h event he) index,
    List.map_id']

end Traced

namespace Node

open Traced

theorem quiet_descend {change : Change} (hchange : ∀ node token, (change node token).Quiet)
    (raw : String) (depth : Nat) (token : String) (tokens : List String) (node : Node) :
    (descend raw change depth token tokens node).Quiet := by
  induction tokens generalizing depth token node with
  | nil => exact hchange node token
  | cons next tokens ih =>
    rw [descend_cons]
    refine (quiet_report rfl).bind fun _ => ?_
    refine (quiet_ofExcept _).bind fun part => ?_
    exact (ih (depth + 1) next part).bind fun _ => quiet_pure _

theorem quiet_insertChild (raw : String) (value node : Node) (token : String) :
    (insertChild raw value node token).Quiet :=
  quiet_of_silent (insertChild_events raw value node token)

theorem quiet_removeChild (raw : String) (node : Node) (token : String) :
    (removeChild raw node token).Quiet := by
  by_cases hlacks : node.LacksMember token
  · rw [Quiet, removeChild_events_of_lacks hlacks]
    exact List.forall_mem_singleton.mpr rfl
  · exact quiet_of_silent (removeChild_events_of_not_lacks hlacks raw)

theorem quiet_setChild (raw : String) (value node : Node) (token : String) :
    (setChild raw value node token).Quiet :=
  quiet_of_silent (setChild_events raw value node token)

variable (document value : Node) (source path : Pointer)

theorem quiet_add : (document.add path value).Quiet := by
  unfold add
  split
  · exact quiet_pure value
  · exact quiet_descend (quiet_insertChild path.raw value) _ _ _ _ document

theorem quiet_remove : (document.remove path).Quiet := by
  unfold remove
  split
  · exact (quiet_report rfl).bind fun _ => quiet_pure document
  · exact quiet_descend (quiet_removeChild path.raw) _ _ _ _ document

theorem quiet_replace : (document.replace path value).Quiet := by
  unfold replace
  split
  · exact quiet_pure value
  · exact quiet_descend (quiet_setChild path.raw value) _ _ _ _ document

theorem quiet_move : (document.move source path).Quiet := by
  unfold move
  split
  · exact quiet_fail _
  · refine (quiet_ofExcept _).bind fun value => ?_
    split
    · exact quiet_pure document
    · exact (quiet_remove document source).bind fun rest => quiet_add rest value path

theorem quiet_copy : (document.copy source path).Quiet :=
  (quiet_ofExcept _).bind fun value => quiet_add document value path

end Node

/-- An operation reports its way and what it misses. Only runs announce operations. -/
theorem Operation.quiet_apply (operation : Operation) (document : Node) :
    (operation.apply document).Quiet := by
  cases operation with
  | add path value => exact (Node.quiet_add document value path).mapError _
  | remove path => exact (Node.quiet_remove document path).mapError _
  | replace path value => exact (Node.quiet_replace document value path).mapError _
  | move source path => exact (Node.quiet_move document source path).mapError _
  | copy source path => exact (Node.quiet_copy document source path).mapError _
  | test path expected =>
    exact (Traced.quiet_ofExcept _).bind fun _ => Traced.quiet_pure document

namespace Patch

variable {operations front back : List Operation} {operation : Operation}
  {document before result : Node} {e : ApplyError} {index : Nat}

/-- Each operation is announced before it is applied, and a fault ends the run. -/
theorem applyFrom_cons (index : Nat) (operation : Operation) (operations : List Operation)
    (document : Node) :
    applyFrom index (operation :: operations) document =
      match (operation.apply document).outcome with
      | .ok next =>
        ⟨.applying index operation :: ((operation.apply document).events ++
          (applyFrom (index + 1) operations next).events),
          (applyFrom (index + 1) operations next).outcome⟩
      | .error e => ⟨.applying index operation :: (operation.apply document).events, .error e⟩ := by
  have hrun : applyFrom index (operation :: operations) document =
      ⟨.applying index operation ::
          (operation.apply document >>= applyFrom (index + 1) operations).events,
        (operation.apply document >>= applyFrom (index + 1) operations).outcome⟩ := rfl
  rw [hrun]
  cases h : (operation.apply document).outcome with
  | ok next => rw [Traced.bind_of_ok h]
  | error e => rw [Traced.bind_of_error h]

/-- The run of two lists is the run of the first, and then of the second if the first succeeds. -/
theorem applyFrom_append (index : Nat) (front back : List Operation) (document : Node) :
    applyFrom index (front ++ back) document =
      applyFrom index front document >>= applyFrom (index + front.length) back := by
  induction front generalizing index document with
  | nil => exact (pure_bind document _).symm
  | cons operation front ih =>
    have hindex : index + 1 + front.length = index + (operation :: front).length := by
      rw [List.length_cons]
      omega
    simp only [List.cons_append, applyFrom, bind_assoc, ih, hindex]

/-- The patch of one operation. -/
def single (operation : Operation) : Patch := ⟨[operation], List.cons_ne_nil operation []⟩

theorem single_apply (operation : Operation) (document : Node) :
    (single operation).apply document =
      ⟨.applying 0 operation :: (operation.apply document).events,
        (operation.apply document).outcome⟩ := by
  change applyFrom 0 [operation] document = _
  rw [applyFrom_cons]
  cases (operation.apply document).outcome with
  | ok next =>
    change (⟨_ :: ((operation.apply document).events ++ []), .ok next⟩ : Traced _ _) = _
    rw [List.append_nil]
  | error e => rfl

/-- What is left after operations were applied as patches of their own, up to the first fault. -/
def applySingly (operations : List Operation) (document : Node) : Except ApplyError Node :=
  operations.foldlM (fun document operation => ((single operation).apply document).outcome) document

/-- The runs of operations as patches of their own, up to the first that fails. -/
def singleRuns : List Operation → Node → List (Traced ApplyError Node)
  | [], _ => []
  | operation :: operations, document =>
    let run := (single operation).apply document
    match run.outcome with
    | .ok next => run :: singleRuns operations next
    | .error _ => [run]

theorem applyFrom_outcome (index : Nat) (operations : List Operation) (document : Node) :
    (applyFrom index operations document).outcome = applySingly operations document := by
  induction operations generalizing index document with
  | nil => rfl
  | cons operation operations ih =>
    rw [applyFrom_cons, applySingly, List.foldlM_cons, single_apply]
    cases (operation.apply document).outcome with
    | ok next => exact ih (index + 1) next
    | error e => rfl

theorem applySingly_cons_eq_ok_iff :
    applySingly (operation :: operations) document = .ok result ↔
      ∃ next, (operation.apply document).outcome = .ok next ∧
        applySingly operations next = .ok result := by
  rw [applySingly, List.foldlM_cons, single_apply, bind_eq_ok]
  rfl

theorem applySingly_append_eq_ok_iff :
    applySingly (front ++ back) document = .ok result ↔
      ∃ next, applySingly front document = .ok next ∧ applySingly back next = .ok result := by
  rw [applySingly, List.foldlM_append, bind_eq_ok]
  rfl

/-- By induction on the rounds of a run: what lets a round succeed holds of the rounds behind it
afterwards, so all of them succeed, on documents of one form. -/
theorem exists_applySingly_flatMap {ι σ : Type} {round : ι → List Operation} {form : σ → Node}
    (Holds : List ι → σ → Prop)
    (hround : ∀ i rest state, Holds (i :: rest) state →
      ∃ next, applySingly (round i) (form state) = .ok (form next) ∧ Holds rest next)
    (rounds : List ι) (state : σ) (h : Holds rounds state) :
    ∃ result, applySingly (rounds.flatMap round) (form state) = .ok (form result) ∧
      Holds [] result := by
  induction rounds generalizing state with
  | nil => exact ⟨state, rfl, h⟩
  | cons i rest ih =>
    obtain ⟨next, hnext, hrest⟩ := hround i rest state h
    obtain ⟨result, hresult, hend⟩ := ih next hrest
    refine ⟨result, ?_, hend⟩
    rw [List.flatMap_cons, applySingly_append_eq_ok_iff]
    exact ⟨form next, hnext, hresult⟩

/-- What is reported of an operation in a run is what its own patch reports, numbered anew. -/
theorem renumbered_single (index : Nat) (operation : Operation) (document : Node) :
    ((single operation).apply document).events.map (Event.renumbered index) =
      .applying index operation :: (operation.apply document).events := by
  rw [single_apply, List.map_cons, (operation.quiet_apply document).renumbered]
  rfl

theorem applyFrom_events (index : Nat) (operations : List Operation) (document : Node) :
    (applyFrom index operations document).events =
      ((singleRuns operations document).zipIdx index).flatMap fun (run, i) =>
        run.events.map (Event.renumbered i) := by
  induction operations generalizing index document with
  | nil => rfl
  | cons operation operations ih =>
    have houtcome : ((single operation).apply document).outcome =
        (operation.apply document).outcome := by rw [single_apply]
    rw [applyFrom_cons]
    simp only [singleRuns, houtcome]
    cases (operation.apply document).outcome with
    | ok next =>
      simp only [List.zipIdx_cons, List.flatMap_cons, renumbered_single, ih (index + 1) next,
        List.cons_append]
    | error e =>
      simp only [List.zipIdx_cons, List.zipIdx_nil, List.flatMap_cons, List.flatMap_nil,
        renumbered_single, List.append_nil]

/-- The first announcement of a run is of its first operation, and the others are of the rest. -/
theorem announced_cons (index : Nat) (operation : Operation) (operations : List Operation)
    (document : Node) :
    (applyFrom index (operation :: operations) document).events.filterMap Event.announced? =
      (operation, index) ::
        match (operation.apply document).outcome with
        | .ok next => (applyFrom (index + 1) operations next).events.filterMap Event.announced?
        | .error _ => [] := by
  have hquiet := (operation.quiet_apply document).announced
  rw [applyFrom_cons]
  cases (operation.apply document).outcome with
  | ok next =>
    change (operation, index) :: (_ ++ _ : List Event).filterMap Event.announced? = _
    rw [List.filterMap_append, hquiet, List.nil_append]
  | error e => exact congrArg ((operation, index) :: ·) hquiet

/-- A run that succeeds announces all its operations in order. -/
theorem announced_of_ok (h : (applyFrom index operations document).outcome = .ok result) :
    (applyFrom index operations document).events.filterMap Event.announced? =
      operations.zipIdx index := by
  induction operations generalizing index document with
  | nil => rfl
  | cons operation operations ih =>
    rw [applyFrom_cons_outcome] at h
    obtain ⟨next, hnext, hrest⟩ := bind_eq_ok.mp h
    rw [announced_cons, hnext, List.zipIdx_cons]
    exact congrArg _ (ih hrest)

/-- A run that fails has a first operation that fails. -/
theorem exists_fault (h : (applyFrom index operations document).outcome = .error e) :
    ∃ front operation back before, operations = front ++ operation :: back ∧
      (applyFrom index front document).outcome = .ok before ∧
      (operation.apply before).outcome = .error e := by
  induction operations generalizing index document with
  | nil => cases h
  | cons operation operations ih =>
    rw [applyFrom_cons_outcome] at h
    cases hnext : (operation.apply document).outcome with
    | ok next =>
      rw [hnext] at h
      obtain ⟨front, faulty, back, before, rfl, hfront, hfault⟩ := ih h
      refine ⟨operation :: front, faulty, back, before, rfl, ?_, hfault⟩
      rw [applyFrom_cons_outcome, hnext]
      exact hfront
    | error f =>
      rw [hnext] at h
      cases h
      exact ⟨[], operation, operations, document, rfl, rfl, hnext⟩

section Fault

variable (hfront : (applyFrom index front document).outcome = .ok before)
  (hfault : (operation.apply before).outcome = .error e)
include hfront hfault

/-- What stands behind an operation that fails makes no difference. -/
theorem applyFrom_of_fault (back : List Operation) :
    applyFrom index (front ++ operation :: back) document =
      applyFrom index (front ++ [operation]) document := by
  rw [applyFrom_append, applyFrom_append, Traced.bind_of_ok hfront, Traced.bind_of_ok hfront,
    applyFrom_cons, applyFrom_cons, hfault]

/-- The operation that fails is the last one announced. -/
theorem announced_of_fault :
    (applyFrom index (front ++ [operation]) document).events.filterMap Event.announced? =
      (front ++ [operation]).zipIdx index := by
  rw [applyFrom_append, Traced.bind_of_ok hfront, List.filterMap_append, announced_of_ok hfront,
    announced_cons, hfault, List.zipIdx_append]
  rfl

end Fault

/-- Applying a patch is applying its operations one by one: it ends as they end and reports what
they report, with the announcements numbered by their place in the patch. -/
theorem apply_one_by_one (patch : Patch) (document : Node) :
    (patch.apply document).outcome = applySingly patch.operations document ∧
    (patch.apply document).events =
      ((singleRuns patch.operations document).zipIdx.flatMap fun (run, i) =>
        run.events.map (Event.renumbered i)) ∧
    (∀ result, (patch.apply document).outcome = .ok result →
      (patch.apply document).events.filterMap Event.announced? = patch.operations.zipIdx) ∧
    ∀ e, (patch.apply document).outcome = .error e →
      ∃ front operation back before, patch.operations = front ++ operation :: back ∧
        applySingly front document = .ok before ∧
        ((single operation).apply before).outcome = .error e ∧
        (patch.apply document).events.filterMap Event.announced? =
          (front ++ [operation]).zipIdx ∧
        ∀ other : Patch, front ++ [operation] <+: other.operations →
          other.apply document = patch.apply document := by
  refine ⟨applyFrom_outcome 0 patch.operations document,
    applyFrom_events 0 patch.operations document, fun result h => announced_of_ok h, ?_⟩
  intro e h
  obtain ⟨front, operation, back, before, hsplit, hfront, hfault⟩ := exists_fault h
  have hrun : patch.apply document = applyFrom 0 (front ++ [operation]) document := by
    rw [apply, hsplit]
    exact applyFrom_of_fault hfront hfault back
  refine ⟨front, operation, back, before, hsplit, ?_, ?_, ?_, ?_⟩
  · rw [← applyFrom_outcome 0]
    exact hfront
  · rw [single_apply]
    exact hfault
  · rw [hrun]
    exact announced_of_fault hfront hfault
  · rintro other ⟨rest, hrest⟩
    rw [hrun, apply, ← hrest, List.append_assoc]
    exact applyFrom_of_fault hfront hfault rest

/-- The second of three operations fails: it looks for a member that the first has removed. -/
theorem apply_one_by_one_to_fault :
    let document := Node.object [("a", .bool true)]
    let path : Pointer := ⟨"/a", ["a"]⟩
    let patch : Patch := ⟨[.remove path, .copy path .root, .remove .root], by simp⟩
    let fault := ApplyError.location (.missingMember "/a" "a")
    (patch.apply document).outcome = .error fault ∧
      ∃ front operation back before, patch.operations = front ++ operation :: back ∧
        applySingly front document = .ok before ∧
        ((single operation).apply before).outcome = .error fault ∧
        (patch.apply document).events.filterMap Event.announced? =
          (front ++ [operation]).zipIdx ∧
        ∀ other : Patch, front ++ [operation] <+: other.operations →
          other.apply document = patch.apply document := by
  intro document path patch fault
  have hfault : (patch.apply document).outcome = .error fault := rfl
  exact ⟨hfault, (apply_one_by_one patch document).2.2.2 fault hfault⟩

end Patch

end JsonPatch
