import Mathlib.Data.List.InsertIdx
import JsonPatch.Proofs.Changes

namespace JsonPatch

namespace Node

theorem ordered_set {items : List Node} (h : (array items).Ordered) {item : Node}
    (hitem : item.Ordered) (i : Nat) : (array (items.set i item)).Ordered := by
  have hall := (itemsOrdered_iff items).mp h
  apply (itemsOrdered_iff _).mpr
  intro x hx
  rcases List.mem_or_eq_of_mem_set hx with hx | rfl
  · exact hall x hx
  · exact hitem

theorem ordered_putPart {token : String} {part node : Node} (hnode : node.Ordered)
    (hpart : part.Ordered) : (putPart token part node).Ordered := by
  cases node with
  | object members => exact ordered_insert hpart hnode
  | array items =>
    cases hi : Pointer.Index.ofToken token with
    | position i =>
      simp only [putPart, hi]
      exact ordered_set hnode hpart i
    | pastEnd => simpa only [putPart, hi] using hnode
    | tooLarge => simpa only [putPart, hi] using hnode
    | malformed => simpa only [putPart, hi] using hnode
  | null => exact hnode
  | bool b => exact hnode
  | number n => exact hnode
  | string s => exact hnode

theorem ordered_graft {new : Node} (hnew : new.Ordered) (tokens : List String) {node : Node}
    (hnode : node.Ordered) : (graft new tokens node).Ordered := by
  induction tokens generalizing node with
  | nil => exact hnew
  | cons token tokens ih =>
    cases hpart : part? token node with
    | none => simpa only [graft, hpart] using hnode
    | some part =>
      rw [graft_cons_of_part new tokens hpart]
      exact ordered_putPart hnode (ih (ordered_of_part hnode hpart))

/-- Changes that leave a container with names in order. -/
def KeepsOrder (change : Change) : Prop :=
  ∀ container token changed, container.Ordered → (change container token).outcome = .ok changed →
    changed.Ordered

theorem insertChild_keepsOrder (raw : String) {value : Node} (hvalue : value.Ordered) :
    KeepsOrder (insertChild raw value) := by
  intro container token changed hcontainer h
  rcases (insertChild_eq_ok_iff raw value container token changed).mp h with
    ⟨members, rfl, rfl⟩ | ⟨items, i, rfl, -, rfl⟩
  · exact ordered_insert hvalue hcontainer
  · have hall := (itemsOrdered_iff items).mp hcontainer
    apply (itemsOrdered_iff _).mpr
    intro x hx
    rcases List.eq_or_mem_of_mem_insertIdx hx with rfl | hx
    · exact hvalue
    · exact hall x hx

theorem removeChild_keepsOrder (raw : String) : KeepsOrder (removeChild raw) := by
  intro container token changed hcontainer h
  rcases (removeChild_eq_ok_iff raw container token changed).mp h with
    ⟨members, rfl, rfl⟩ | ⟨items, i, rfl, -, -, rfl⟩
  · have hall := (membersOrdered_iff members).mp hcontainer.2
    refine ⟨Members.ascending_erase token members hcontainer.1, (membersOrdered_iff _).mpr ?_⟩
    intro m hm
    exact hall m (List.mem_of_mem_eraseP hm)
  · have hall := (itemsOrdered_iff items).mp hcontainer
    apply (itemsOrdered_iff _).mpr
    intro x hx
    exact hall x (List.mem_of_mem_eraseIdx hx)

theorem setChild_keepsOrder (raw : String) {value : Node} (hvalue : value.Ordered) :
    KeepsOrder (setChild raw value) := by
  intro container token changed hcontainer h
  rcases (setChild_eq_ok_iff raw value container token changed).mp h with
    ⟨members, rfl, rfl⟩ | ⟨items, i, rfl, -, -, rfl⟩
  · exact ordered_insert hvalue hcontainer
  · exact ordered_set hcontainer hvalue i

theorem ordered_edit {raw : String} {change : Change} {place : List String} {token : String}
    {document result : Node} (hchange : KeepsOrder change) (hordered : document.Ordered)
    (h : edit raw change place token document = .ok result) : result.Ordered := by
  obtain ⟨container, changed, hcontainer, hchanged, rfl⟩ :=
    (edit_eq_ok_iff raw change place token document result).mp h
  have hkept := hchange container token changed (ordered_of_follow hordered hcontainer) hchanged
  exact ordered_graft hkept place hordered

variable {document value result : Node} {source pointer : Pointer}

theorem ordered_add (hordered : document.Ordered) (hvalue : value.Ordered)
    (h : (document.add pointer value).outcome = .ok result) : result.Ordered := by
  rcases tokens_cases pointer with hroot | ⟨place, last, hplace⟩
  · rw [add_outcome_root hroot] at h
    cases h
    exact hvalue
  · rw [add_outcome hplace] at h
    exact ordered_edit (insertChild_keepsOrder pointer.raw hvalue) hordered h

theorem ordered_remove (hordered : document.Ordered)
    (h : (document.remove pointer).outcome = .ok result) : result.Ordered := by
  rcases tokens_cases pointer with hroot | ⟨place, last, hplace⟩
  · rw [remove_outcome_root hroot] at h
    cases h
    exact hordered
  · rw [remove_outcome hplace] at h
    exact ordered_edit (removeChild_keepsOrder pointer.raw) hordered h

theorem ordered_replace (hordered : document.Ordered) (hvalue : value.Ordered)
    (h : (document.replace pointer value).outcome = .ok result) : result.Ordered := by
  rcases tokens_cases pointer with hroot | ⟨place, last, hplace⟩
  · rw [replace_outcome_root hroot] at h
    cases h
    exact hvalue
  · rw [replace_outcome hplace] at h
    exact ordered_edit (setChild_keepsOrder pointer.raw hvalue) hordered h

theorem ordered_copy (hordered : document.Ordered)
    (h : (document.copy source pointer).outcome = .ok result) : result.Ordered := by
  simp only [copy, Traced.outcome_bind, Traced.outcome_ofExcept] at h
  obtain ⟨value, hvalue, hadd⟩ := bind_eq_ok.mp h
  exact ordered_add hordered (ordered_of_follow hordered hvalue) hadd

theorem ordered_move (hordered : document.Ordered)
    (h : (document.move source pointer).outcome = .ok result) : result.Ordered := by
  obtain ⟨-, value, hvalue, h⟩ := (move_eq_ok_iff document source pointer result).mp h
  rcases h with ⟨-, rfl⟩ | ⟨-, rest, hremove, hadd⟩
  · exact hordered
  · exact ordered_add (ordered_remove hordered hremove) (ordered_of_follow hordered hvalue) hadd

end Node

variable {document result : Node}

/-- An operation whose value has its names in order leaves a document that has. -/
theorem Operation.ordered_apply {operation : Operation}
    (hvalue : ∀ value ∈ operation.value?, value.Ordered) (hordered : document.Ordered)
    (h : (operation.apply document).outcome = .ok result) : result.Ordered := by
  cases operation with
  | add path value => exact Node.ordered_add hordered (hvalue value rfl) (mapError_eq_ok.mp h)
  | remove path => exact Node.ordered_remove hordered (mapError_eq_ok.mp h)
  | replace path value =>
    exact Node.ordered_replace hordered (hvalue value rfl) (mapError_eq_ok.mp h)
  | move source path => exact Node.ordered_move hordered (mapError_eq_ok.mp h)
  | copy source path => exact Node.ordered_copy hordered (mapError_eq_ok.mp h)
  | test path expected =>
    simp only [Operation.apply, Traced.outcome_bind, Traced.outcome_ofExcept] at h
    obtain ⟨_, -, hresult⟩ := bind_eq_ok.mp h
    cases hresult
    exact hordered

/-- By induction on the operations: what each step keeps, the run keeps. -/
theorem Patch.ordered_applyFrom {operations : List Operation} (index : Nat)
    (hvalues : ∀ operation ∈ operations, ∀ value ∈ operation.value?, value.Ordered)
    (hordered : document.Ordered)
    (h : (applyFrom index operations document).outcome = .ok result) : result.Ordered := by
  induction operations generalizing index document with
  | nil =>
    cases h
    exact hordered
  | cons operation operations ih =>
    rw [applyFrom_cons_outcome] at h
    obtain ⟨next, hnext, hrest⟩ := bind_eq_ok.mp h
    have hkept := Operation.ordered_apply (hvalues operation List.mem_cons_self) hordered hnext
    exact ih (index + 1) (fun o ho => hvalues o (List.mem_cons_of_mem _ ho)) hkept hrest

theorem Patch.ordered_apply {patch : Patch}
    (hvalues : ∀ operation ∈ patch.operations, ∀ value ∈ operation.value?, value.Ordered)
    (hordered : document.Ordered) (h : (patch.apply document).outcome = .ok result) :
    result.Ordered :=
  ordered_applyFrom 0 hvalues hordered h

end JsonPatch
