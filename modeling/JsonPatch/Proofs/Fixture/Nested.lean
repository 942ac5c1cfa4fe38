import JsonPatch.Proofs.Fixture.Rotated

namespace JsonPatch.Fixture

open Node
open Pointer (spell tokens_spell_singleton tokens_spell_concat encode encode_append
  encode_singleton IsPlain isPlain_append isPlain_toString)

theorem isPlain_level (i : Nat) : IsPlain (level i) := by
  have hlevel : IsPlain "level" := by simp [IsPlain]
  exact isPlain_append hlevel (isPlain_toString i)

theorem level_ne_empty (i : Nat) : level i ≠ "" := by simp [level]

theorem level_lt_sibling (i : Nat) : level i < "sibling" := by
  rw [String.lt_iff_toList_lt, level, String.toList_append]
  exact List.cons_lt_cons_iff.mpr (.inl (by decide))

/-- The innermost members. -/
def innermost : List (String × Node) :=
  [("items", .array [count 1, count 2, count 3]), ("leaf", .bool true)]

/-- The names of some levels, the outermost first. -/
def levels (outermost depth : Nat) : List String := (List.range' outermost depth).map level

/-- So many objects inside one another, around the innermost one. -/
def nestedNode (outermost : Nat) : Nat → Node
  | 0 => .object innermost
  | depth + 1 =>
    .object [(level outermost, nestedNode (outermost + 1) depth), ("sibling", count outermost)]

theorem toJson_nestedNode (outermost depth : Nat) :
    (nestedNode outermost depth).toJson = nested outermost depth := by
  induction depth generalizing outermost with
  | zero =>
    simp only [nestedNode, nested, innermost, ← count_toJson]
    rfl
  | succ depth ih =>
    rw [nestedNode, nested, ← ih, ← count_toJson]
    rfl

theorem ordered_nestedNode (outermost depth : Nat) : (nestedNode outermost depth).Ordered := by
  induction depth generalizing outermost with
  | zero =>
    have hnames : Members.Ascending innermost :=
      (List.pairwise_map (f := Prod.fst)).mp (show ["items", "leaf"].Pairwise (· < ·) by decide)
    exact ⟨hnames, ⟨trivial, trivial, trivial, trivial⟩, trivial, trivial⟩
  | succ depth ih =>
    have hnames : Members.Ascending
        [(level outermost, nestedNode (outermost + 1) depth), ("sibling", count outermost)] :=
      List.pairwise_pair.mpr (level_lt_sibling outermost)
    exact ⟨hnames, ih (outermost + 1), trivial, trivial⟩

/-- The levels lead to the innermost object. -/
theorem follow_levels (raw : String) (outermost depth : Nat) :
    follow raw (levels outermost depth) (nestedNode outermost depth) = .ok (object innermost) := by
  -- The document grows outward and the path inward, so each outermost level has to be allowed.
  induction depth generalizing outermost with
  | zero => rfl
  | succ depth ih =>
    rw [levels, List.range'_succ, List.map_cons, follow_cons_eq_ok_iff]
    exact ⟨nestedNode (outermost + 1) depth, Members.lookup_cons_self _ _ _, ih (outermost + 1)⟩

theorem encode_levels (outermost depth : Nat) :
    encode (levels outermost depth) =
      String.join ((List.range' outermost depth).map fun i => slash (level i)) := by
  induction depth generalizing outermost with
  | zero => rfl
  | succ depth ih =>
    have hsplit := encode_append [level outermost] (levels (outermost + 1) depth)
    rw [encode_singleton (isPlain_level outermost), ih] at hsplit
    rw [List.range'_succ, List.map_cons, String.join_cons]
    exact hsplit

/-- The operations inside the object at a place, and between it and the outermost object. -/
def operationsAt (place : List String) : List Operation :=
  [.test (spell (place ++ ["leaf"])) (.bool true),
   .replace (spell (place ++ ["leaf"])) (.bool false),
   .add (spell (place ++ ["items", "1"])) (count 9),
   .copy (spell (place ++ ["items"])) (spell ["items"]),
   .move (spell ["sibling"]) (spell (place ++ ["sibling"]))]

theorem nestedConfig_eq (depth : Nat) :
    nestedConfig depth = spelled (nestedNode 0 depth) (operationsAt (levels 0 depth)) := by
  let path := String.join ((List.range depth).map fun i => slash (level i))
  have hpath (tokens : List String) :
      (spell (levels 0 depth ++ tokens)).raw = path ++ encode tokens := by
    change encode (levels 0 depth ++ tokens) = _
    rw [encode_append, encode_levels, ← List.range_eq_range']
  have hoperations : (operationsAt (levels 0 depth)).map Operation.toJson = [
      step "test" (path ++ "/leaf") (some (.bool true)),
      step "replace" (path ++ "/leaf") (some (.bool false)),
      step "add" (path ++ "/items/1") (some (.ofNat 9)),
      transfer (path ++ "/items") "copy" "/items",
      transfer "/sibling" "move" (path ++ "/sibling")] := by
    have hleaf := hpath ["leaf"]
    have hitem := hpath ["items", "1"]
    have hitems := hpath ["items"]
    have hsibling := hpath ["sibling"]
    simp only [operationsAt, List.map_cons, List.map_nil, Operation.toJson, Operation.source?,
      Operation.value?, Operation.path, hleaf, hitem, hitems, hsibling, count_toJson]
    rfl
  rw [spelled, hoperations, toJson_nestedNode]
  rfl

theorem isSound_operationsAt {place : List String} (hplace : ∀ token ∈ place, token ≠ "") :
    ∀ operation ∈ operationsAt place, IsSound operation := by
  have hinside {tokens : List String} (h : ∀ token ∈ tokens, token ≠ "") :
      (spell (place ++ tokens)).Obtainable :=
    Pointer.obtainable_spell (List.forall_mem_append.mpr ⟨hplace, h⟩)
  have hvalue {value : Node} (h : value.Ordered ∧ value.isNull = false) :
      ∀ v ∈ some value, v.Ordered ∧ v.isNull = false := by
    intro v hv
    rwa [← Option.some.inj hv]
  have hsource {source : Pointer} (h : source.Obtainable) : ∀ s ∈ some source, s.Obtainable := by
    intro s hs
    rwa [← Option.some.inj hs]
  have hroot (name : String) (hname : name ≠ "") : (spell [name]).Obtainable :=
    Pointer.obtainable_spell (List.forall_mem_singleton.mpr hname)
  simp only [operationsAt, List.forall_mem_cons]
  refine ⟨isSound_of (hinside (by simp)) ?_ (hvalue ⟨trivial, rfl⟩),
    isSound_of (hinside (by simp)) ?_ (hvalue ⟨trivial, rfl⟩),
    isSound_of (hinside (by simp)) ?_ (hvalue ⟨trivial, rfl⟩),
    isSound_of (hroot "items" (by simp)) (hsource (hinside (by simp))) ?_,
    isSound_of (hinside (by simp)) (hsource (hroot "sibling" (by simp))) ?_, by simp⟩
  all_goals simp [Operation.source?, Operation.value?]

/-- The outermost members of a document: below one of them the object at a place, and a sibling. -/
structure Holds (top : String) (rest : List String) (members inner : List (String × Node)) :
    Prop where
  inside : follow "" (top :: rest) (object members) = .ok (object inner)
  sibling : ∃ value, members.lookup "sibling" = some value

section Run

variable {top : String} {rest : List String} {members inner : List (String × Node)}

/-- What leads through one member does not depend on the others. -/
theorem follow_object_congr {other : List (String × Node)} (raw : String)
    (h : other.lookup top = members.lookup top) :
    follow raw (top :: rest) (object other) = follow raw (top :: rest) (object members) := by
  rw [follow, follow, child, child, h]

/-- Another object in the place leaves the sibling where it is. -/
theorem Holds.exists_graft (h : Holds top rest members inner) (htop : top ≠ "sibling")
    (changed : List (String × Node)) :
    ∃ others, graft (object changed) (top :: rest) (object members) = object others ∧
      Holds top rest others changed := by
  obtain ⟨part, hpart, -⟩ := (follow_cons_eq_ok_iff "" top rest _ _).mp h.inside
  have hgraft := graft_cons_of_part (object changed) rest hpart
  have hinside := follow_graft "" (object changed) h.inside
  obtain ⟨value, hvalue⟩ := h.sibling
  rw [hgraft] at hinside
  exact ⟨_, hgraft, hinside, value, by rw [Members.lookup_insert_of_ne htop.symm, hvalue]⟩

theorem Holds.apply_test (h : Holds top rest members inner) {name : String} {value : Node}
    (hvalue : inner.lookup name = some value) :
    ((Operation.test (spell (top :: rest ++ [name])) value).apply (object members)).outcome =
      .ok (object members) := by
  rw [Operation.apply_test_eq_ok_iff]
  refine ⟨rfl, value, ?_, same_self value⟩
  rw [lookup_eq_ok_iff (tokens_spell_concat (top :: rest) name)]
  exact ⟨object inner, follow_raw _ h.inside, hvalue⟩

theorem Holds.apply_replace (h : Holds top rest members inner) (htop : top ≠ "sibling")
    (name : String) (value : Node) :
    ∃ others, ((Operation.replace (spell (top :: rest ++ [name])) value).apply
        (object members)).outcome = .ok (object others) ∧
      Holds top rest others (Members.insert name value inner) := by
  obtain ⟨others, hgraft, hothers⟩ := h.exists_graft htop (Members.insert name value inner)
  have hreplace : ((object members).replace (spell (top :: rest ++ [name])) value).outcome =
      .ok (object others) := by
    rw [replace_eq_ok_iff (tokens_spell_concat (top :: rest) name)]
    exact ⟨object inner, _, follow_raw _ h.inside, rfl, hgraft.symm⟩
  exact ⟨others, (mapError_eq_ok (f := ApplyError.location)).mpr hreplace, hothers⟩

/-- An element added to an array in the object. -/
theorem Holds.apply_add (h : Holds top rest members inner) (htop : top ≠ "sibling")
    {name token : String} {items : List Node} {i : Nat}
    (hitems : inner.lookup name = some (array items))
    (hslot : insertionSlot token items.length = some i) (value : Node) :
    ∃ others, ((Operation.add (spell (top :: rest ++ [name, token])) value).apply
        (object members)).outcome = .ok (object others) ∧
      Holds top rest others (Members.insert name (array (items.insertIdx i value)) inner) := by
  obtain ⟨others, hgraft, hothers⟩ :=
    h.exists_graft htop (Members.insert name (array (items.insertIdx i value)) inner)
  have hpart : part? name (object inner) = some (array items) := hitems
  have hplace : (spell (top :: rest ++ [name, token])).tokens =
      (top :: rest ++ [name]) ++ [token] := by simp [spell]
  have hadd : ((object members).add (spell (top :: rest ++ [name, token])) value).outcome =
      .ok (object others) := by
    rw [add_eq_ok_iff hplace]
    refine ⟨array items, array (items.insertIdx i value), ?_, ?_, ?_⟩
    · rw [follow_append, follow_raw _ h.inside]
      exact (follow_singleton _ name _).trans (child_of_part _ hpart)
    · rw [insertChild_eq_ok_iff]
      exact .inr ⟨items, i, rfl, hslot, rfl⟩
    · rw [graft_append h.inside, graft_cons_of_part _ [] hpart, ← hgraft]
      rfl
  exact ⟨others, (mapError_eq_ok (f := ApplyError.location)).mpr hadd, hothers⟩

/-- A member of the object copied to the outermost members. -/
theorem Holds.apply_copy (h : Holds top rest members inner) {name : String} {value : Node}
    (htop : top ≠ name) (hname : "sibling" ≠ name) (hvalue : inner.lookup name = some value) :
    ((Operation.copy (spell (top :: rest ++ [name])) (spell [name])).apply
        (object members)).outcome = .ok (object (Members.insert name value members)) ∧
      Holds top rest (Members.insert name value members) inner := by
  have hcopy : ((object members).copy (spell (top :: rest ++ [name])) (spell [name])).outcome =
      .ok (object (Members.insert name value members)) := by
    rw [copy_eq_ok_iff]
    refine ⟨value, ?_, rfl⟩
    rw [lookup_eq_ok_iff (tokens_spell_concat (top :: rest) name)]
    exact ⟨object inner, follow_raw _ h.inside, hvalue⟩
  refine ⟨(mapError_eq_ok (f := ApplyError.location)).mpr hcopy, ?_, ?_⟩
  · rw [follow_object_congr "" (Members.lookup_insert_of_ne htop value members), h.inside]
  · obtain ⟨sibling, hsibling⟩ := h.sibling
    exact ⟨sibling, by rw [Members.lookup_insert_of_ne hname, hsibling]⟩

/-- The sibling moved into the object. -/
theorem Holds.apply_move (h : Holds top rest members inner) (htop : top ≠ "sibling") :
    ∃ result, ((Operation.move (spell ["sibling"]) (spell (top :: rest ++ ["sibling"]))).apply
      (object members)).outcome = .ok result := by
  obtain ⟨value, hvalue⟩ := h.sibling
  have hkept : follow "" (top :: rest) (object (Members.erase "sibling" members)) =
      .ok (object inner) := by
    rw [follow_object_congr "" (Members.lookup_erase_of_ne htop members), h.inside]
  have hinside := tokens_spell_concat (top :: rest) "sibling"
  have houtside : (spell (top :: rest ++ ["sibling"])).isInside (spell ["sibling"]) = false := by
    simp [Pointer.isInside, spell, List.isPrefixOf, htop.symm]
  have hmove : ((object members).move (spell ["sibling"])
      (spell (top :: rest ++ ["sibling"]))).outcome =
        .ok (graft (object (Members.insert "sibling" value inner)) (top :: rest)
          (object (Members.erase "sibling" members))) := by
    rw [move_eq_ok_iff]
    refine ⟨houtside, value, ?_, .inr ⟨?_, ?_⟩⟩
    · rw [lookup_eq_ok_iff (tokens_spell_singleton "sibling")]
      exact ⟨object members, rfl, hvalue⟩
    · simp [Pointer.same, spell, htop.symm]
    · refine ⟨object (Members.erase "sibling" members), ?_, ?_⟩
      · rw [remove_eq_ok_iff (tokens_spell_singleton "sibling")]
        exact ⟨object members, _, rfl, removeChild_object _ _ members, rfl⟩
      · rw [add_eq_ok_iff hinside]
        exact ⟨object inner, _, follow_raw _ hkept, rfl, rfl⟩
  exact ⟨_, (mapError_eq_ok (f := ApplyError.location)).mpr hmove⟩

/-- All five operations succeed one after the other. -/
theorem Holds.run (h : Holds top rest members innermost) (htop : top ≠ "sibling")
    (hitems : top ≠ "items") :
    ∃ result, Patch.applySingly (operationsAt (top :: rest)) (object members) = .ok result := by
  have hleaf : innermost.lookup "leaf" = some (.bool true) := rfl
  have harray : (Members.insert "leaf" (.bool false) innermost).lookup "items" =
      some (array [count 1, count 2, count 3]) := rfl
  have hslot : insertionSlot "1" 3 = some 1 := by decide
  have htest := h.apply_test hleaf
  obtain ⟨second, hreplace, h⟩ := h.apply_replace htop "leaf" (.bool false)
  obtain ⟨third, hadd, h⟩ := h.apply_add htop harray hslot (count 9)
  obtain ⟨hcopy, h⟩ := h.apply_copy hitems (by decide) (Members.lookup_insert_self "items" _ _)
  obtain ⟨result, hmove⟩ := h.apply_move htop
  refine ⟨result, ?_⟩
  rw [operationsAt, Patch.applySingly_cons_eq_ok_iff]
  refine ⟨_, htest, Patch.applySingly_cons_eq_ok_iff.mpr ⟨_, hreplace, ?_⟩⟩
  rw [Patch.applySingly_cons_eq_ok_iff]
  refine ⟨_, hadd, Patch.applySingly_cons_eq_ok_iff.mpr ⟨_, hcopy, ?_⟩⟩
  exact Patch.applySingly_cons_eq_ok_iff.mpr ⟨_, hmove, rfl⟩

end Run

theorem nestedConfig_applies {depth : Nat} (h : 1 ≤ depth) :
    ∃ document patch result, (nestedConfig depth).load = .ok (document, patch) ∧
      (patch.apply document).outcome = .ok result := by
  obtain ⟨n, rfl⟩ : ∃ n, depth = n + 1 := ⟨depth - 1, by omega⟩
  have hholds : Holds (level 0) (levels 1 n)
      [(level 0, nestedNode 1 n), ("sibling", count 0)] innermost :=
    { inside := follow_levels "" 0 (n + 1)
      sibling := ⟨count 0, rfl⟩ }
  obtain ⟨result, hrun⟩ := hholds.run (by decide) (by decide)
  have hsound : ∀ operation ∈ operationsAt (levels 0 (n + 1)), IsSound operation := by
    apply isSound_operationsAt
    intro token htoken
    obtain ⟨i, -, rfl⟩ := List.mem_map.mp htoken
    exact level_ne_empty i
  have hne : operationsAt (levels 0 (n + 1)) ≠ [] := List.cons_ne_nil _ _
  refine ⟨nestedNode 0 (n + 1), ⟨_, hne⟩, result, ?_, ?_⟩
  · rw [nestedConfig_eq]
    exact load_spelled (ordered_nestedNode 0 (n + 1)) hne hsound
  · rw [Patch.apply, Patch.applyFrom_outcome]
    exact hrun

/-- Every fixture is loaded and its patch applies, at any size that keeps its numbers in 64 bits,
and the array and the object end with these lengths. -/
theorem fixtures_apply {size : Nat} (hsize : 1 ≤ size) (hfits : ∀ i < size, size + i < 2 ^ 64) :
    (∃ document patch members, (flatObject size).load = .ok (document, patch) ∧
      (patch.apply document).outcome = .ok (object members) ∧
      members.length = size - (size + 6) / 8 + 1) ∧
    (∃ document patch items, (longArray size).load = .ok (document, patch) ∧
      (patch.apply document).outcome = .ok (array items) ∧
      items.length = size + (size + 63) / 64) ∧
    (∃ document patch result, (nestedConfig size).load = .ok (document, patch) ∧
      (patch.apply document).outcome = .ok result) := by
  have hlength : size ≤ maxLength := (le_maxLength_iff size).mpr (hfits 0 hsize)
  exact ⟨flatObject_applies size, longArray_applies hsize hlength, nestedConfig_applies hsize⟩

/-- A size with three rounds over the array, the last of them not a full step before its end. -/
theorem fixtures_apply_in_three_rounds :
    1 ≤ 130 ∧ (∀ i < 130, 130 + i < 2 ^ 64) ∧
    (∃ document patch members, (flatObject 130).load = .ok (document, patch) ∧
      (patch.apply document).outcome = .ok (object members) ∧ members.length = 114) ∧
    (∃ document patch items, (longArray 130).load = .ok (document, patch) ∧
      (patch.apply document).outcome = .ok (array items) ∧ items.length = 133) ∧
    (∃ document patch result, (nestedConfig 130).load = .ok (document, patch) ∧
      (patch.apply document).outcome = .ok result) := by
  have hsize : 1 ≤ 130 := by decide
  have hfits : ∀ i < 130, 130 + i < 2 ^ 64 := by
    intro i hi
    omega
  exact ⟨hsize, hfits, fixtures_apply hsize hfits⟩

end JsonPatch.Fixture
