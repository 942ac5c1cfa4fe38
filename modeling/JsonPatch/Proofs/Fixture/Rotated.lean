import JsonPatch.Proofs.Fixture.Numbered

namespace JsonPatch.Fixture

open Node
open Pointer (spell tokens_spell_singleton tokens_spell_pair encode_singleton IsPlain
  isPlain_toString)

/-- An element as it is at first. -/
def element (i : Nat) : Node :=
  .object [("id", count i), ("tags", .array [.string "a", .string "b"])]

/-- The operations at every sixty-fourth element. -/
def rotating (size i : Nat) : List Operation :=
  [.add (spell ["-"]) (.object [("id", count (size + i))]),
   .move (spell [toString i]) (spell ["0"]),
   .copy (spell ["0", "tags"]) (spell [toString i, "copied"])]

theorem longArray_eq (size : Nat) :
    longArray size = spelled (array ((List.range size).map element))
      ((spaced 0 64 size).flatMap (rotating size)) := by
  have hitems (is : List Nat) : itemsToJson (is.map element) = is.map fun i =>
      .object [("id", .ofNat i), ("tags", .array [.string "a", .string "b"])] := by
    induction is with
    | nil => rfl
    | cons i is ih =>
      rw [List.map_cons, List.map_cons, itemsToJson, ih, ← count_toJson]
      rfl
  have hplace (i : Nat) : (spell [toString i]).raw = slash (toString i) :=
    encode_singleton (isPlain_toString i)
  have hcopied (i : Nat) :
      (spell [toString i, "copied"]).raw = slash (toString i) ++ "/copied" := by
    have hplain : IsPlain "copied" := by simp [IsPlain]
    have hsplit := Pointer.encode_append [toString i] ["copied"]
    rw [encode_singleton (isPlain_toString i), encode_singleton hplain] at hsplit
    exact hsplit
  have hrotating (i : Nat) : (rotating size i).map Operation.toJson =
      [step "add" "/-" (some (.object [("id", .ofNat (size + i))])),
       transfer (slash (toString i)) "move" "/0",
       transfer "/0/tags" "copy" (slash (toString i) ++ "/copied")] := by
    rw [← hcopied, ← hplace, ← count_toJson]
    rfl
  rw [spelled, longArray, Node.toJson, hitems]
  simp only [List.map_flatMap, hrotating]

theorem isSound_rotating {size i : Nat} : ∀ operation ∈ rotating size i, IsSound operation := by
  have hplace : (spell [toString i]).Obtainable :=
    Pointer.obtainable_spell (List.forall_mem_singleton.mpr (Pointer.toString_ne_empty i))
  have hcopied : (spell [toString i, "copied"]).Obtainable := by
    apply Pointer.obtainable_spell
    simp only [List.forall_mem_cons, ne_eq, Pointer.toString_ne_empty, not_false_eq_true, true_and]
    simp
  have hfront : (spell ["0", "tags"]).Obtainable := Pointer.obtainable_spell (by simp)
  have hadded : (object [("id", count (size + i))]).Ordered :=
    ⟨List.pairwise_singleton _ _, trivial, trivial⟩
  simp only [rotating, List.forall_mem_cons]
  refine ⟨isSound_of (Pointer.obtainable_spell (by simp)) (by simp [Operation.source?]) ?_,
    isSound_of (Pointer.obtainable_spell (by simp)) ?_ (by simp [Operation.value?]),
    isSound_of hcopied ?_ (by simp [Operation.value?]), by simp⟩
  · intro value hvalue
    rw [← Option.some.inj hvalue]
    exact ⟨hadded, rfl⟩
  · intro source hsource
    rw [← Option.some.inj hsource]
    exact hplace
  · intro source hsource
    rw [← Option.some.inj hsource]
    exact hfront

theorem ordered_elements (is : List Nat) : (array (is.map element)).Ordered := by
  refine (itemsOrdered_iff _).mpr ?_
  intro item hitem
  obtain ⟨i, -, rfl⟩ := List.mem_map.mp hitem
  have hnames : Members.Ascending
      [("id", count i), ("tags", Node.array [.string "a", .string "b"])] :=
    (List.pairwise_map (f := Prod.fst)).mp (show ["id", "tags"].Pairwise (· < ·) by decide)
  exact ⟨hnames, trivial, ⟨trivial, trivial, trivial⟩, trivial⟩

section Array

variable {items : List Node} {item value : Node} {i : Nat}

theorem apply_append (value : Node) (items : List Node) :
    ((Operation.add (spell ["-"]) value).apply (array items)).outcome =
      .ok (array (items ++ [value])) := by
  have hadd : ((array items).add (spell ["-"]) value).outcome = .ok (array (items ++ [value])) := by
    rw [add_eq_ok_iff (tokens_spell_singleton "-")]
    refine ⟨array items, _, rfl, ?_, rfl⟩
    rw [insertChild_eq_ok_iff]
    exact .inr ⟨items, items.length, rfl, rfl, by rw [List.insertIdx_length_self]⟩
  exact (mapError_eq_ok (f := ApplyError.location)).mpr hadd

/-- A move to the front, be it from the front itself. -/
theorem apply_rotate (hi : i ≤ maxLength) (hitem : items[i]? = some item) :
    ((Operation.move (spell [toString i]) (spell ["0"])).apply (array items)).outcome =
      .ok (array (item :: items.eraseIdx i)) := by
  obtain ⟨hlt, rfl⟩ := List.getElem?_eq_some_iff.mp hitem
  have htoken : Pointer.Index.ofToken (toString i) = .position i :=
    (Pointer.Index.ofToken_eq_position_iff _ i).mpr ⟨rfl, hi⟩
  have hfront : Pointer.Index.ofToken "0" = .position 0 := by decide
  have hlookup : (array items).lookup (spell [toString i]) = .ok items[i] := by
    rw [lookup_eq_ok_iff (tokens_spell_singleton (toString i))]
    exact ⟨array items, rfl, by simp only [part?, htoken, hitem]⟩
  have hmove : ((array items).move (spell [toString i]) (spell ["0"])).outcome =
      .ok (array (items[i] :: items.eraseIdx i)) := by
    rw [move_eq_ok_iff]
    refine ⟨by simp [Pointer.isInside, spell], items[i], hlookup, ?_⟩
    by_cases hzero : i = 0
    · subst hzero
      refine .inl ⟨by decide, ?_⟩
      cases items with
      | nil => simp at hlt
      | cons first rest => rfl
    · have hne : toString i ≠ "0" := fun heq => hzero (Pointer.toString_inj heq)
      refine .inr ⟨by simpa [Pointer.same, spell] using hne, array (items.eraseIdx i), ?_, ?_⟩
      · rw [remove_eq_ok_iff (tokens_spell_singleton (toString i))]
        refine ⟨array items, _, rfl, ?_, rfl⟩
        rw [removeChild_eq_ok_iff]
        exact .inr ⟨items, i, rfl, htoken, hlt, rfl⟩
      · rw [add_eq_ok_iff (tokens_spell_singleton "0")]
        refine ⟨array (items.eraseIdx i), _, rfl, ?_, rfl⟩
        rw [insertChild_eq_ok_iff]
        exact .inr ⟨items.eraseIdx i, 0, rfl, by simp [insertionSlot, hfront], rfl⟩
  exact (mapError_eq_ok (f := ApplyError.location)).mpr hmove

/-- A part of the first element copied into an element that is an object. -/
theorem apply_copy {front members : List (String × Node)} (hi : i ≤ maxLength)
    (hfront : items[0]? = some (object front)) (hpart : front.lookup "tags" = some value)
    (hitem : items[i]? = some (object members)) :
    ((Operation.copy (spell ["0", "tags"]) (spell [toString i, "copied"])).apply
        (array items)).outcome =
      .ok (array (items.set i (object (Members.insert "copied" value members)))) := by
  have htoken : Pointer.Index.ofToken (toString i) = .position i :=
    (Pointer.Index.ofToken_eq_position_iff _ i).mpr ⟨rfl, hi⟩
  have hzero : Pointer.Index.ofToken "0" = .position 0 := by decide
  have hfirst : part? "0" (array items) = some (object front) := by
    simp only [part?, hzero, hfront]
  have hplace : part? (toString i) (array items) = some (object members) := by
    simp only [part?, htoken, hitem]
  have hlookup : (array items).lookup (spell ["0", "tags"]) = .ok value := by
    rw [lookup_eq_ok_iff (tokens_spell_pair "0" "tags")]
    refine ⟨object front, ?_, hpart⟩
    rw [follow_singleton, child_of_part _ hfirst]
  have hcopy : ((array items).copy (spell ["0", "tags"]) (spell [toString i, "copied"])).outcome =
      .ok (array (items.set i (object (Members.insert "copied" value members)))) := by
    rw [copy_eq_ok_iff]
    refine ⟨value, hlookup, ?_⟩
    rw [add_eq_ok_iff (tokens_spell_pair (toString i) "copied")]
    refine ⟨object members, object (Members.insert "copied" value members), ?_, rfl, ?_⟩
    · rw [follow_singleton, child_of_part _ hplace]
    · rw [graft_cons_of_part _ _ hplace, graft]
      simp only [putPart, htoken]
  exact (mapError_eq_ok (f := ApplyError.location)).mpr hcopy

end Array

/-- The elements while numbers wait for their rounds: all are objects, and those at the places that
wait are as they were at first. -/
structure Rotated (length : Nat) (waiting : List Nat) (items : List Node) : Prop where
  length : items.length + waiting.length = length
  ascending : waiting.Pairwise (· < ·)
  fits : ∀ i ∈ waiting, i ≤ maxLength
  element : ∀ i ∈ waiting, items[i]? = some (element i)
  objects : ∀ item ∈ items, ∃ members, item = object members

/-- A round appends, and moves and changes nothing behind its own place. -/
theorem Rotated.round {size length i : Nat} {waiting : List Nat} {items : List Node}
    (h : Rotated length (i :: waiting) items) :
    ∃ next, Patch.applySingly (rotating size i) (array items) = .ok (array next) ∧
      Rotated length waiting next := by
  have hfits := h.fits i List.mem_cons_self
  have helement := h.element i List.mem_cons_self
  obtain ⟨hlater, hascending⟩ := List.pairwise_cons.mp h.ascending
  obtain ⟨hlt, -⟩ := List.getElem?_eq_some_iff.mp helement
  let added : Node := object [("id", count (size + i))]
  let rotated := Fixture.element i :: (items ++ [added]).eraseIdx i
  have hlength : rotated.length = items.length + 1 := by
    simp [rotated, List.length_eraseIdx]
    omega
  have hobjects : ∀ item ∈ rotated, ∃ members, item = object members := by
    intro item hitem
    rcases List.mem_cons.mp hitem with rfl | hitem
    · exact ⟨_, rfl⟩
    · rcases List.mem_append.mp (List.mem_of_mem_eraseIdx hitem) with hitem | hitem
      · exact h.objects item hitem
      · exact ⟨_, List.mem_singleton.mp hitem⟩
  have hplace : i < rotated.length := by omega
  obtain ⟨members, hmembers⟩ := hobjects _ (List.getElem_mem hplace)
  have hitem : rotated[i]? = some (object members) := by
    rw [List.getElem?_eq_getElem hplace, hmembers]
  have happended : (items ++ [added])[i]? = some (Fixture.element i) := by
    rw [List.getElem?_append_left hlt, helement]
  refine ⟨rotated.set i (object (Members.insert "copied"
    (.array [.string "a", .string "b"]) members)), ?_, ?_⟩
  · rw [rotating, Patch.applySingly_cons_eq_ok_iff]
    refine ⟨_, apply_append _ items, ?_⟩
    rw [Patch.applySingly_cons_eq_ok_iff]
    refine ⟨_, apply_rotate hfits happended, ?_⟩
    rw [Patch.applySingly_cons_eq_ok_iff]
    exact ⟨_, apply_copy hfits rfl rfl hitem, rfl⟩
  · refine ⟨?_, hascending, fun j hj => h.fits j (List.mem_cons_of_mem i hj), ?_, ?_⟩
    · have htotal := h.length
      rw [List.length_cons] at htotal
      rw [List.length_set]
      omega
    · intro j hj
      have hij := hlater j hj
      have hj' := h.element j (List.mem_cons_of_mem i hj)
      obtain ⟨hjlt, -⟩ := List.getElem?_eq_some_iff.mp hj'
      -- The place is one step further from the front, and lost the one step at the removal.
      obtain ⟨k, rfl⟩ : ∃ k, j = k + 1 := ⟨j - 1, by omega⟩
      rw [List.getElem?_set_ne (by omega), List.getElem?_cons_succ,
        List.getElem?_eraseIdx_of_ge (by omega), List.getElem?_append_left hjlt, hj']
    · intro item hitem
      rcases List.mem_or_eq_of_mem_set hitem with hitem | rfl
      · exact hobjects item hitem
      · exact ⟨_, rfl⟩

theorem Rotated.rounds {length : Nat} {waiting : List Nat} {items : List Node} (size : Nat)
    (h : Rotated length waiting items) :
    ∃ result, Patch.applySingly (waiting.flatMap (rotating size)) (array items) =
      .ok (array result) ∧ Rotated length [] result :=
  Patch.exists_applySingly_flatMap (Rotated length) (fun _ _ _ hround => hround.round)
    waiting items h

theorem rotated_elements {size : Nat} (hfits : size ≤ maxLength) :
    Rotated (size + (size + 63) / 64) (spaced 0 64 size) ((List.range size).map element) where
  length := by
    rw [List.length_map, List.length_range, length_spaced (by omega)]
    omega
  ascending := pairwise_spaced 0 64 size
  fits i hi := by
    have hlt := (mem_spaced.mp hi).1
    omega
  element i hi := by
    have hlt := (mem_spaced.mp hi).1
    simp [hlt]
  objects item hitem := by
    obtain ⟨i, -, rfl⟩ := List.mem_map.mp hitem
    exact ⟨_, rfl⟩

theorem longArray_applies {size : Nat} (hsize : 1 ≤ size) (hfits : size ≤ maxLength) :
    ∃ document patch items, (longArray size).load = .ok (document, patch) ∧
      (patch.apply document).outcome = .ok (array items) ∧
      items.length = size + (size + 63) / 64 := by
  have hfirst : 0 ∈ spaced 0 64 size := mem_spaced.mpr ⟨hsize, rfl⟩
  have hne : (spaced 0 64 size).flatMap (rotating size) ≠ [] := by
    intro hnil
    have hround := List.flatMap_eq_nil_iff.mp hnil 0 hfirst
    cases hround
  have hsound : ∀ operation ∈ (spaced 0 64 size).flatMap (rotating size), IsSound operation := by
    intro operation ho
    obtain ⟨i, -, ho⟩ := List.mem_flatMap.mp ho
    exact isSound_rotating operation ho
  obtain ⟨items, hrun, hitems⟩ := (rotated_elements hfits).rounds size
  refine ⟨array ((List.range size).map element), ⟨_, hne⟩, items, ?_, ?_, hitems.length⟩
  · rw [longArray_eq]
    exact load_spelled (ordered_elements _) hne hsound
  · rw [Patch.apply, Patch.applyFrom_outcome]
    exact hrun

end JsonPatch.Fixture
