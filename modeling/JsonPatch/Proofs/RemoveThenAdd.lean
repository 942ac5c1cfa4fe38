import Mathlib.Data.List.InsertIdx
import JsonPatch.Proofs.Changes

namespace JsonPatch.Node

/-- A part that is dropped and put back at its token restores the container. -/
theorem insertChild_removeChild {token : String} {container part : Node}
    (hordered : container.Ordered) (h : part? token container = some part) (raw other : String) :
    ∃ rest, (removeChild raw container token).outcome = .ok rest ∧
      (insertChild other part rest token).outcome = .ok container := by
  rcases part?_cases h with ⟨members, rfl, hp⟩ | ⟨items, i, rfl, hi, hp⟩
  · refine ⟨object (Members.erase token members), removeChild_object raw token members, ?_⟩
    rw [insertChild_eq_ok_iff]
    left
    refine ⟨_, rfl, ?_⟩
    rw [Members.insert_erase hordered.1 hp]
  · obtain ⟨hlt, rfl⟩ := List.getElem?_eq_some_iff.mp hp
    have hlen : (items.eraseIdx i).length = items.length - 1 := List.length_eraseIdx_of_lt hlt
    refine ⟨array (items.eraseIdx i), ?_, ?_⟩
    · rw [removeChild_eq_ok_iff]
      exact .inr ⟨items, i, rfl, hi, hlt, rfl⟩
    · rw [insertChild_eq_ok_iff]
      right
      refine ⟨_, i, rfl, ?_, ?_⟩
      · simp only [insertionSlot, hi]
        exact if_pos (by omega)
      · rw [List.insertIdx_eraseIdx_getElem hlt]

/-- A value that is removed and added again at the same tokens restores the document. -/
theorem add_remove {document value : Node} {source path : Pointer}
    (hordered : document.Ordered) (htokens : source.tokens = path.tokens)
    (hfound : document.lookup source = .ok value) :
    ∃ rest, (document.remove source).outcome = .ok rest ∧
      (rest.add path value).outcome = .ok document := by
  rcases tokens_cases source with hroot | ⟨place, last, hplace⟩
  · rw [lookup_root hroot] at hfound
    cases hfound
    exact ⟨document, remove_outcome_root hroot document,
      add_outcome_root (htokens ▸ hroot) document document⟩
  · obtain ⟨container, hfollow, hpart⟩ := (lookup_eq_ok_iff hplace document value).mp hfound
    obtain ⟨rest, hrest, hback⟩ := insertChild_removeChild
      (ordered_of_follow hordered hfollow) hpart source.raw path.raw
    refine ⟨graft rest place document, ?_, ?_⟩
    · rw [remove_eq_ok_iff hplace]
      exact ⟨container, rest, hfollow, hrest, rfl⟩
    · rw [add_outcome (htokens ▸ hplace)]
      exact edit_graft hordered hfollow hback

/-- A move reads the value, removes it, and adds it where it shall go. The short cut of a move onto
the own place takes the same way to the same end. -/
theorem move_eq_remove_then_add (document : Node) (source path : Pointer)
    (hordered : document.Ordered) (houtside : path.isInside source = false) :
    (document.move source path).outcome = (do
      let value ← document.lookup source
      let rest ← (document.remove source).outcome
      (rest.add path value).outcome) := by
  simp only [move, houtside, Bool.false_eq_true, if_false, Traced.outcome_bind,
    Traced.outcome_ofExcept]
  cases hfound : document.lookup source with
  | error e => rfl
  | ok value =>
    change (if source.same path then pure document else _ : Traced LocationError Node).outcome =
      (document.remove source).outcome >>= fun rest => (rest.add path value).outcome
    cases hsame : source.same path with
    | false =>
      simp only [Bool.false_eq_true, if_false, Traced.outcome_bind]
    | true =>
      obtain ⟨rest, hrest, hback⟩ :=
        add_remove hordered (eq_of_beq hsame) hfound
      rw [hrest]
      exact hback.symm

/-- An element moved onto its own place, which the second pointer spells another way. -/
theorem move_onto_respelled_place :
    let document := object [("a~2", array [null, bool true])]
    let source : Pointer := ⟨"/a~2/0", ["a~2", "0"]⟩
    let path : Pointer := ⟨"/a~02/0", ["a~2", "0"]⟩
    document.Ordered ∧ path.isInside source = false ∧
      (document.move source path).outcome = (do
        let value ← document.lookup source
        let rest ← (document.remove source).outcome
        (rest.add path value).outcome) := by
  intro document source path
  have hordered : document.Ordered :=
    ⟨List.pairwise_singleton _ _, ⟨trivial, trivial, trivial⟩, trivial⟩
  have houtside : path.isInside source = false := by decide
  exact ⟨hordered, houtside, move_eq_remove_then_add document source path hordered houtside⟩

/-- A part is set as if it were dropped and put in again. Of an array, only an element that is there
can be set or dropped, and the place where it stood is open again after that. -/
theorem setChild_eq_remove_then_insert {container : Node} (hordered : container.Ordered)
    (raw token : String) (value : Node) :
    (setChild raw value container token).outcome = (do
      let rest ← (removeChild raw container token).outcome
      (insertChild raw value rest token).outcome) := by
  cases container with
  | object members =>
    rw [removeChild_object]
    change Except.ok (object (Members.insert token value members)) =
      Except.ok (object (Members.insert token value (Members.erase token members)))
    rw [Members.insert_erase_self hordered.1]
  | array items =>
    simp only [setChild, removeChild, Traced.outcome_bind, Traced.outcome_ofExcept,
      Traced.outcome_pure]
    cases hindex : elementIndex raw token items.length with
    | error e => rfl
    | ok i =>
      have hposition := (elementIndex_eq_ok_iff raw token items.length i).mp hindex
      have hroom : (i : Nat) ≤ (items.eraseIdx i).length := by
        rw [List.length_eraseIdx_of_lt i.isLt]
        have := i.isLt
        omega
      have hslot : insertionSlot token (items.eraseIdx i).length = some (i : Nat) := by
        rw [insertionSlot, hposition]
        exact if_pos hroom
      have hinsert : (insertChild raw value (array (items.eraseIdx i)) token).outcome =
          .ok (array ((items.eraseIdx i).insertIdx i value)) :=
        (insertChild_eq_ok_iff ..).mpr (.inr ⟨_, i, rfl, hslot, rfl⟩)
      rw [List.insertIdx_eraseIdx_self (Nat.ne_of_lt i.isLt)] at hinsert
      exact hinsert.symm
  | _ => rfl

/-- A replacement removes the value and adds the new one where it stood, and fails exactly as the
removal does. At the root the removal keeps the document, and the addition takes its place. -/
theorem replace_eq_remove_then_add (document value : Node) (p : Pointer)
    (hordered : document.Ordered) :
    (document.replace p value).outcome = (do
      let rest ← (document.remove p).outcome
      (rest.add p value).outcome) := by
  rcases tokens_cases p with hroot | ⟨place, last, hplace⟩
  · rw [replace_outcome_root hroot, remove_outcome_root hroot]
    exact (add_outcome_root hroot document value).symm
  · simp only [replace_outcome hplace, remove_outcome hplace, add_outcome hplace]
    rw [edit_edit]
    apply edit_congr
    intro container hcontainer
    rw [Traced.outcome_bind]
    exact setChild_eq_remove_then_insert (ordered_of_follow hordered hcontainer) p.raw last value

/-- An element of an array is replaced in its place. The end of the array has nothing to replace,
although a value can be added there. -/
theorem replace_eq_remove_then_add_in_array :
    let document := object [("a", array [null, bool true, array []])]
    let path : Pointer := ⟨"/a/1", ["a", "1"]⟩
    let atEnd : Pointer := ⟨"/a/-", ["a", "-"]⟩
    document.Ordered ∧
      (document.replace path null).outcome = (do
        let rest ← (document.remove path).outcome
        (rest.add path null).outcome) ∧
      (document.replace path null).outcome = .ok (object [("a", array [null, null, array []])]) ∧
      (do
        let rest ← (document.remove atEnd).outcome
        (rest.add atEnd null).outcome) = .error (.indexOutOfBounds "/a/-" "-" 3) := by
  intro document path atEnd
  have hordered : document.Ordered :=
    ⟨List.pairwise_singleton _ _, ⟨trivial, trivial, trivial, trivial⟩, trivial⟩
  refine ⟨hordered, replace_eq_remove_then_add document null path hordered, rfl, ?_⟩
  rw [← replace_eq_remove_then_add document null atEnd hordered]
  rfl

end JsonPatch.Node
