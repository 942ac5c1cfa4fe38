import JsonPatch.Proofs.Descent

namespace JsonPatch

theorem insertionIndex_eq_ok_iff (raw token : String) (n : Nat) (i : Fin (n + 1)) :
    insertionIndex raw token n = .ok i ↔ insertionSlot token n = some (i : Nat) := by
  unfold insertionIndex insertionSlot
  cases Pointer.Index.ofToken token with
  | position j =>
    by_cases hj : j < n + 1
    · have hle : j ≤ n := by omega
      simp only [dif_pos hj, if_pos hle, Except.ok.injEq, Option.some.injEq, Fin.ext_iff]
    · have hgt : ¬j ≤ n := by omega
      simp only [dif_neg hj, if_neg hgt, reduceCtorEq]
  | pastEnd => simp only [Except.ok.injEq, Option.some.injEq, Fin.ext_iff]
  | tooLarge => simp only [reduceCtorEq]
  | malformed => simp only [reduceCtorEq]

theorem insertionSlot_le {token : String} {n i : Nat} (h : insertionSlot token n = some i) :
    i ≤ n := by
  obtain ⟨hfit, -⟩ := insertionIndex_of_slot "" h
  omega

namespace Node

/-- A value is put into an object as a member, or into an array at the slot of the token. -/
theorem insertChild_eq_ok_iff (raw : String) (value container : Node) (token : String)
    (changed : Node) :
    (insertChild raw value container token).outcome = .ok changed ↔
      (∃ members, container = object members ∧
        changed = object (Members.insert token value members)) ∨
      (∃ items i, container = array items ∧ insertionSlot token items.length = some i ∧
        changed = array (items.insertIdx i value)) := by
  cases container with
  | object members => simp [insertChild, eq_comm]
  | array items =>
    simp only [insertChild, Traced.outcome_bind, Traced.outcome_ofExcept, Traced.outcome_pure,
      reduceCtorEq, false_and, exists_false, false_or, array.injEq]
    rw [bind_eq_ok]
    constructor
    · intro h
      obtain ⟨i, hi, hchanged⟩ := h
      cases hchanged
      exact ⟨items, i, rfl, (insertionIndex_eq_ok_iff raw token _ i).mp hi, rfl⟩
    · intro h
      obtain ⟨_, i, rfl, hslot, rfl⟩ := h
      obtain ⟨hfit, hi⟩ := insertionIndex_of_slot raw hslot
      exact ⟨⟨i, hfit⟩, hi, rfl⟩
  | _ => simp [insertChild]

/-- What a change of one element that is there makes of an array. -/
theorem element_eq_ok_iff (raw token : String) (items : List Node) (f : Nat → List Node)
    (changed : Node) :
    (elementIndex raw token items.length >>= fun i => Except.ok (array (f i))) = .ok changed ↔
      ∃ i, Pointer.Index.ofToken token = .position i ∧ i < items.length ∧
        changed = array (f i) := by
  rw [bind_eq_ok]
  constructor
  · intro h
    obtain ⟨i, hi, hchanged⟩ := h
    cases hchanged
    exact ⟨i, (elementIndex_eq_ok_iff raw token _ i).mp hi, i.isLt, rfl⟩
  · intro h
    obtain ⟨i, hi, hlt, rfl⟩ := h
    exact ⟨⟨i, hlt⟩, elementIndex_of_lt raw hi hlt, rfl⟩

theorem removeChild_object (raw token : String) (members : List (String × Node)) :
    (removeChild raw (object members) token).outcome =
      .ok (object (Members.erase token members)) := by
  simp only [removeChild]
  split <;> rfl

/-- A member is dropped whether it is there or not, an element only if it is there. -/
theorem removeChild_eq_ok_iff (raw : String) (container : Node) (token : String)
    (changed : Node) :
    (removeChild raw container token).outcome = .ok changed ↔
      (∃ members, container = object members ∧ changed = object (Members.erase token members)) ∨
      (∃ items i, container = array items ∧ Pointer.Index.ofToken token = .position i ∧
        i < items.length ∧ changed = array (items.eraseIdx i)) := by
  cases container with
  | object members => simp [removeChild_object, eq_comm]
  | array items =>
    simp only [removeChild, Traced.outcome_bind, Traced.outcome_ofExcept, Traced.outcome_pure]
    rw [element_eq_ok_iff raw token items fun i => items.eraseIdx i]
    simp
  | _ => simp [removeChild]

/-- A member is set whether it was there or not, an element only if it was. -/
theorem setChild_eq_ok_iff (raw : String) (value container : Node) (token : String)
    (changed : Node) :
    (setChild raw value container token).outcome = .ok changed ↔
      (∃ members, container = object members ∧
        changed = object (Members.insert token value members)) ∨
      (∃ items i, container = array items ∧ Pointer.Index.ofToken token = .position i ∧
        i < items.length ∧ changed = array (items.set i value)) := by
  cases container with
  | object members => simp [setChild, eq_comm]
  | array items =>
    simp only [setChild, Traced.outcome_bind, Traced.outcome_ofExcept, Traced.outcome_pure]
    rw [element_eq_ok_iff raw token items fun i => items.set i value]
    simp
  | _ => simp [setChild]

/-- An edit that succeeds finds a container, changes it, and puts it back. -/
theorem edit_eq_ok_iff (raw : String) (change : Change) (place : List String) (token : String)
    (document result : Node) :
    edit raw change place token document = .ok result ↔
      ∃ container changed, follow raw place document = .ok container ∧
        (change container token).outcome = .ok changed ∧ result = graft changed place document := by
  rw [edit, bind_eq_ok]
  constructor
  · intro h
    obtain ⟨container, hcontainer, hrest⟩ := h
    obtain ⟨changed, hchanged, hresult⟩ := bind_eq_ok.mp hrest
    cases hresult
    exact ⟨container, changed, hcontainer, hchanged, rfl⟩
  · intro h
    obtain ⟨container, changed, hcontainer, hchanged, rfl⟩ := h
    exact ⟨container, hcontainer, bind_eq_ok.mpr ⟨changed, hchanged, rfl⟩⟩

/-- A change of a container that restores what it was restores the document around it. -/
theorem edit_graft {raw other : String} {change : Change} {place : List String}
    {token : String} {document container changed : Node}
    (hordered : document.Ordered) (hcontainer : follow raw place document = .ok container)
    (hback : (change changed token).outcome = .ok container) :
    edit other change place token (graft changed place document) = .ok document := by
  rw [edit_eq_ok_iff]
  refine ⟨changed, container, follow_graft other changed hcontainer, hback, ?_⟩
  rw [graft_graft, graft_self hordered hcontainer]

/-- What an edit makes of a document depends on what its change makes of the one container. -/
theorem edit_congr {raw : String} {first second : Change} {place : List String} {token : String}
    {document : Node} (h : ∀ container, follow raw place document = .ok container →
      (first container token).outcome = (second container token).outcome) :
    edit raw first place token document = edit raw second place token document := by
  unfold edit
  cases hcontainer : follow raw place document with
  | error e => rfl
  | ok container =>
    change (first container token).outcome >>= _ = (second container token).outcome >>= _
    rw [h container hcontainer]

/-- Two edits of one place, one after the other, are one edit. -/
theorem edit_edit (raw other : String) (first second : Change) (place : List String)
    (token : String) (document : Node) :
    (edit raw first place token document >>= edit other second place token) =
      edit raw (fun container token => first container token >>= fun rest => second rest token)
        place token document := by
  unfold edit
  cases hcontainer : follow raw place document with
  | error e => rfl
  | ok container =>
    change ((first container token).outcome >>= _) >>= _ = (first container token >>= _).outcome >>= _
    rw [Traced.outcome_bind]
    cases (first container token).outcome with
    | error e => rfl
    | ok rest =>
      change follow other place (graft rest place document) >>= _ =
        (second rest token).outcome >>= _
      rw [follow_graft other rest hcontainer]
      change (second rest token).outcome >>= _ = _
      simp only [graft_graft]

/-- The container that the last token of a pointer belongs to. -/
def container (document : Node) (p : Pointer) : Except LocationError Node :=
  follow p.raw p.tokens.dropLast document

theorem container_of_concat {p : Pointer} {place : List String} {last : String}
    (h : p.tokens = place ++ [last]) (document : Node) :
    document.container p = follow p.raw place document := by
  rw [container, h, List.dropLast_concat]

theorem last?_of_concat {p : Pointer} {place : List String} {last : String}
    (h : p.tokens = place ++ [last]) : p.last? = some last := by
  rw [Pointer.last?, h, List.getLast?_concat]

theorem parent?_of_concat {p : Pointer} {place : List String} {last : String}
    (h : p.tokens = place ++ [last]) : p.parent? = some (.spell place) := by
  have hnonempty : (place ++ [last]).isEmpty = false := by simp
  simp only [Pointer.parent?, h, hnonempty, Bool.false_eq_true, if_false, List.dropLast_concat]

theorem isRoot_of_concat {p : Pointer} {place : List String} {last : String}
    (h : p.tokens = place ++ [last]) : p.isRoot = false := by
  simp only [Pointer.isRoot, h, List.isEmpty_eq_false_iff]
  exact List.concat_ne_nil last place

/-- The member of a node under a name. Only objects have members. -/
def memberAt (name : String) : Node → Option Node
  | object members => members.lookup name
  | _ => none

/-- The member of an object that a pointer names, if there is one. -/
def member? (document : Node) (p : Pointer) : Option Node :=
  match document.container p, p.last? with
  | .ok container, some last => memberAt last container
  | _, _ => none

theorem member?_of_container {document container : Node} {p : Pointer} {place : List String}
    {last : String} (hplace : p.tokens = place ++ [last])
    (h : follow p.raw place document = .ok container) :
    document.member? p = memberAt last container := by
  rw [member?, container_of_concat hplace, last?_of_concat hplace, h]

theorem memberAt_eq_some {name : String} {node value : Node} (h : memberAt name node = some value) :
    ∃ members, node = object members ∧ members.lookup name = some value := by
  cases node with
  | object members => exact ⟨members, rfl, h⟩
  | _ => cases h

/-- What an addition below the root does. -/
theorem add_eq_ok_iff {p : Pointer} {place : List String} {last : String}
    (hplace : p.tokens = place ++ [last]) (document value result : Node) :
    (document.add p value).outcome = .ok result ↔
      ∃ container changed, follow p.raw place document = .ok container ∧
        (insertChild p.raw value container last).outcome = .ok changed ∧
        result = graft changed place document := by
  rw [add_outcome hplace, edit_eq_ok_iff]

/-- What a removal below the root does. -/
theorem remove_eq_ok_iff {p : Pointer} {place : List String} {last : String}
    (hplace : p.tokens = place ++ [last]) (document result : Node) :
    (document.remove p).outcome = .ok result ↔
      ∃ container changed, follow p.raw place document = .ok container ∧
        (removeChild p.raw container last).outcome = .ok changed ∧
        result = graft changed place document := by
  rw [remove_outcome hplace, edit_eq_ok_iff]

/-- What a replacement below the root does. -/
theorem replace_eq_ok_iff {p : Pointer} {place : List String} {last : String}
    (hplace : p.tokens = place ++ [last]) (document value result : Node) :
    (document.replace p value).outcome = .ok result ↔
      ∃ container changed, follow p.raw place document = .ok container ∧
        (setChild p.raw value container last).outcome = .ok changed ∧
        result = graft changed place document := by
  rw [replace_outcome hplace, edit_eq_ok_iff]

/-- A move that succeeds finds its value outside the new place, and takes it there unless it is
there already. -/
theorem move_eq_ok_iff (document : Node) (source pointer : Pointer) (result : Node) :
    (document.move source pointer).outcome = .ok result ↔
      pointer.isInside source = false ∧ ∃ value, document.lookup source = .ok value ∧
        ((source.same pointer = true ∧ result = document) ∨
          (source.same pointer = false ∧ ∃ rest, (document.remove source).outcome = .ok rest ∧
            (rest.add pointer value).outcome = .ok result)) := by
  unfold move
  cases pointer.isInside source with
  | true => simp
  | false =>
    simp only [Bool.false_eq_true, if_false, Traced.outcome_bind, Traced.outcome_ofExcept,
      true_and]
    rw [bind_eq_ok]
    cases source.same pointer with
    | true => simp [eq_comm]
    | false =>
      simp only [Bool.false_eq_true, if_false, Traced.outcome_bind, bind_eq_ok, false_and,
        false_or, true_and]

/-- A copy that succeeds finds its value, and adds it. -/
theorem copy_eq_ok_iff (document : Node) (source pointer : Pointer) (result : Node) :
    (document.copy source pointer).outcome = .ok result ↔
      ∃ value, document.lookup source = .ok value ∧
        (document.add pointer value).outcome = .ok result := by
  simp only [copy, Traced.outcome_bind, Traced.outcome_ofExcept, bind_eq_ok]

/-- A test passes when its pointer leads to a part that equals the expected value. -/
theorem test_eq_ok_iff (document : Node) (pointer : Pointer) (expected : Node) :
    document.test pointer expected = .ok () ↔
      ∃ found, document.lookup pointer = .ok found ∧ found.same expected = true := by
  unfold test
  cases document.lookup pointer with
  | error e => simp
  | ok found =>
    by_cases hsame : found.same expected = true
    · simp [hsame]
    · simp [hsame]

end Node

/-- A test that passes leaves the document as it is. -/
theorem Operation.apply_test_eq_ok_iff (document : Node) (path : Pointer) (expected result : Node) :
    ((Operation.test path expected).apply document).outcome = .ok result ↔
      result = document ∧ ∃ found, document.lookup path = .ok found ∧
        found.same expected = true := by
  simp only [Operation.apply, Traced.outcome_bind, Traced.outcome_ofExcept, Traced.outcome_pure]
  rw [bind_eq_ok, ← Node.test_eq_ok_iff]
  constructor
  · intro h
    obtain ⟨_, htest, hresult⟩ := h
    cases hresult
    exact ⟨rfl, htest⟩
  · intro h
    obtain ⟨rfl, htest⟩ := h
    exact ⟨(), htest, rfl⟩

/-- A run applies the first operation and goes on with the others. -/
theorem Patch.applyFrom_cons_outcome (index : Nat) (operation : Operation)
    (operations : List Operation) (document : Node) :
    (applyFrom index (operation :: operations) document).outcome = (do
      let document ← (operation.apply document).outcome
      (applyFrom (index + 1) operations document).outcome) := by
  rw [applyFrom, Traced.outcome_bind, Traced.outcome_report]
  change (operation.apply document >>= applyFrom (index + 1) operations).outcome = _
  rw [Traced.outcome_bind]

end JsonPatch
