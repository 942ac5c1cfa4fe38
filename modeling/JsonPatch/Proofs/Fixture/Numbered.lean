import JsonPatch.Proofs.Fixture.Loading
import JsonPatch.Proofs.Meaning
import JsonPatch.Proofs.Stepwise

namespace JsonPatch.Fixture

open Node
open Pointer (spell tokens_spell_singleton encode_singleton IsPlain isPlain_append isPlain_toString)

theorem mem_spaced {remainder interval size i : Nat} :
    i ∈ spaced remainder interval size ↔ i < size ∧ i % interval = remainder := by
  simp [spaced]

theorem nodup_spaced (remainder interval size : Nat) : (spaced remainder interval size).Nodup :=
  List.nodup_range.filter _

theorem pairwise_spaced (remainder interval size : Nat) :
    (spaced remainder interval size).Pairwise (· < ·) :=
  List.pairwise_lt_range.filter _

/-- One number more is one round more if it leaves the remainder. -/
theorem succ_sub_add_pred_div {remainder interval : Nat} (h : remainder < interval) (n : Nat) :
    (n + 1 - remainder + interval - 1) / interval =
      (n - remainder + interval - 1) / interval + if n % interval = remainder then 1 else 0 := by
  by_cases hle : remainder ≤ n
  · obtain ⟨k, rfl⟩ : ∃ k, n = remainder + k := ⟨n - remainder, by omega⟩
    have hnext : remainder + k + 1 - remainder + interval - 1 = k + interval - 1 + 1 := by omega
    have hmod : interval ∣ k + interval - 1 + 1 ↔ (remainder + k) % interval = remainder := by
      rw [show k + interval - 1 + 1 = k + interval by omega, Nat.dvd_add_self_right]
      constructor
      · rintro ⟨c, rfl⟩
        rw [Nat.add_mul_mod_self_left, Nat.mod_eq_of_lt h]
      · intro hmod
        have hsub := Nat.sub_mod_eq_zero_of_mod_eq (hmod.trans (Nat.mod_eq_of_lt h).symm)
        rw [Nat.add_sub_cancel_left] at hsub
        exact Nat.dvd_of_mod_eq_zero hsub
    rw [hnext, Nat.add_sub_cancel_left, Nat.succ_div]
    simp only [hmod]
  · have hmod : n % interval = n := Nat.mod_eq_of_lt (by omega)
    have hne : n ≠ remainder := by omega
    rw [hmod, if_neg hne, show n + 1 - remainder = n - remainder by omega, Nat.add_zero]

theorem length_spaced {remainder interval : Nat} (h : remainder < interval) (size : Nat) :
    (spaced remainder interval size).length = (size - remainder + interval - 1) / interval := by
  induction size with
  | zero =>
    have hsmall : (0 - remainder + interval - 1) / interval = 0 := Nat.div_eq_of_lt (by omega)
    rw [hsmall]
    simp [spaced]
  | succ n ih =>
    rw [succ_sub_add_pred_div h, ← ih, spaced, List.range_succ, List.filter_append,
      List.length_append]
    by_cases hn : n % interval = remainder <;> simp [spaced, hn]

theorem isPlain_key (i : Nat) : IsPlain (key i) := by
  have hkey : IsPlain "key" := by simp [IsPlain]
  exact isPlain_append hkey (isPlain_toString i)

theorem key_ne_empty (i : Nat) : key i ≠ "" := by simp [key]

theorem key_inj {i j : Nat} (h : key i = key j) : i = j := by
  have hdigits : toString i = toString j := by simpa [key] using h
  exact Pointer.toString_inj hdigits

theorem key_ne_of_nodup {i j : Nat} {waiting : List Nat} (h : (i :: waiting).Nodup)
    (hj : j ∈ waiting) : key j ≠ key i := by
  intro heq
  rw [key_inj heq] at hj
  exact (List.nodup_cons.mp h).1 hj

theorem key_ne_slashed (i : Nat) : key i ≠ "extra/slash" := by
  intro h
  have hlist := congrArg String.toList h
  rw [key, String.toList_append] at hlist
  have hfirst : 'k' = 'e' := (List.cons.inj hlist).1
  cases hfirst

/-- The members that bear the numbers below a size. -/
def numbered (size : Nat) : List (String × Node) :=
  Members.ofList ((List.range size).map fun i => (key i, count i))

theorem numbered_succ (size : Nat) :
    numbered (size + 1) = Members.insert (key size) (count size) (numbered size) := by
  rw [numbered, List.range_succ, List.map_append]
  exact Members.ofList_concat _ (key size, count size)

theorem ordered_numbered (size : Nat) : (object (numbered size)).Ordered := by
  apply ordered_ofList
  intro m hm
  obtain ⟨i, -, rfl⟩ := List.mem_map.mp hm
  trivial

theorem lookup_numbered {size i : Nat} (h : i < size) :
    (numbered size).lookup (key i) = some (count i) := by
  induction size with
  | zero => omega
  | succ n ih =>
    rw [numbered_succ]
    by_cases hi : i = n
    · rw [hi, Members.lookup_insert_self]
    · have hne : key i ≠ key n := fun heq => hi (key_inj heq)
      rw [Members.lookup_insert_of_ne hne, ih (by omega)]

theorem lookup_numbered_of_ne {size : Nat} {name : String} (h : ∀ i < size, name ≠ key i) :
    (numbered size).lookup name = none := by
  induction size with
  | zero => rfl
  | succ n ih =>
    rw [numbered_succ, Members.lookup_insert_of_ne (h n (by omega))]
    exact ih fun i hi => h i (by omega)

theorem length_numbered (size : Nat) : (numbered size).length = size := by
  induction size with
  | zero => rfl
  | succ n ih =>
    have habsent : (numbered n).lookup (key n) = none := by
      apply lookup_numbered_of_ne
      intro i hi heq
      have hi' := key_inj heq
      omega
    rw [numbered_succ, Members.length_insert_of_lookup_none (ordered_numbered n).1 habsent, ih]

theorem membersToJson_insert (name : String) (value : Node) (members : List (String × Node)) :
    membersToJson (Members.insert name value members) =
      Members.insert name value.toJson (membersToJson members) := by
  induction members with
  | nil => rfl
  | cons m members ih =>
    obtain ⟨n, v⟩ := m
    simp only [Members.insert, membersToJson]
    split_ifs <;> simp [membersToJson, ih]

theorem membersToJson_numbered (size : Nat) :
    membersToJson (numbered size) =
      Members.ofList ((List.range size).map fun i => (key i, Json.ofNat i)) := by
  induction size with
  | zero => rfl
  | succ n ih =>
    rw [numbered_succ, membersToJson_insert, ih, count_toJson, List.range_succ, List.map_append]
    exact (Members.ofList_concat _ (key n, Json.ofNat n)).symm

/-- The operations on every fourth member. -/
def replacing (i : Nat) : List Operation :=
  [.test (spell [key i]) (count i), .replace (spell [key i]) (.string ("v" ++ toString i))]

/-- The operation on every eighth member. -/
def removing (i : Nat) : List Operation := [.remove (spell [key i])]

/-- The operation that adds a name with a slash. -/
def adding : Operation :=
  .add (spell ["extra/slash"]) (.object [("nested", .array [count 1, count 2, count 3])])

def flatOperations (size : Nat) : List Operation :=
  (spaced 0 4 size).flatMap replacing ++ (spaced 1 8 size).flatMap removing ++ [adding]

theorem flatObject_eq (size : Nat) :
    flatObject size = spelled (object (numbered size)) (flatOperations size) := by
  have hdocument : Json.ofMembers ((List.range size).map fun i => (key i, Json.ofNat i)) =
      (object (numbered size)).toJson := by
    rw [Node.toJson, membersToJson_numbered]
    rfl
  have hraw (i : Nat) : (spell [key i]).raw = slash (key i) := encode_singleton (isPlain_key i)
  have hreplacing (i : Nat) : (replacing i).map Operation.toJson =
      [step "test" (slash (key i)) (some (.ofNat i)),
       step "replace" (slash (key i)) (some (.string ("v" ++ toString i)))] := by
    rw [← hraw, ← count_toJson]
    rfl
  have hremoving (i : Nat) : (removing i).map Operation.toJson =
      [step "remove" (slash (key i)) none] := by
    rw [← hraw]
    rfl
  have hadding : adding.toJson = step "add" "/extra~1slash"
      (some (.object [("nested", .array [.ofNat 1, .ofNat 2, .ofNat 3])])) := by
    rfl
  have hsingles : (spaced 1 8 size).map (fun i => step "remove" (slash (key i)) none) =
      (spaced 1 8 size).flatMap fun i => [step "remove" (slash (key i)) none] := List.map_eq_flatMap
  rw [spelled, flatOperations, flatObject, hdocument, hsingles]
  simp only [List.map_append, List.map_flatMap, hreplacing, hremoving, List.map_cons, List.map_nil,
    hadding]

theorem isSound_flatOperations {size : Nat} :
    ∀ operation ∈ flatOperations size, IsSound operation := by
  have hpointer (i : Nat) : (spell [key i]).Obtainable :=
    Pointer.obtainable_spell (by simp [key_ne_empty])
  intro operation ho
  simp only [flatOperations, List.mem_append, List.mem_flatMap, replacing,
    removing, List.mem_cons, List.not_mem_nil, or_false] at ho
  rcases ho with (⟨i, -, rfl | rfl⟩ | ⟨i, -, rfl⟩) | rfl
  · exact isSound_of (hpointer i) (by simp [Operation.source?])
      (by simp [Operation.value?, count, Node.Ordered, Node.isNull])
  · exact isSound_of (hpointer i) (by simp [Operation.source?])
      (by simp [Operation.value?, Node.Ordered, Node.isNull])
  · exact isSound_of (hpointer i) (by simp [Operation.source?]) (by simp [Operation.value?])
  · refine isSound_of (Pointer.obtainable_spell (by simp)) (by simp [adding, Operation.source?]) ?_
    intro value hvalue
    cases hvalue
    exact ⟨⟨List.pairwise_singleton _ _, ⟨trivial, trivial, trivial, trivial⟩, trivial⟩, rfl⟩

/-- The members while numbers wait to be tested: those that wait have their values, all that can be
removed are there, and the name with a slash is free. -/
structure Tested (size : Nat) (waiting : List Nat) (members : List (String × Node)) : Prop where
  ascending : Members.Ascending members
  length : members.length = size
  nodup : waiting.Nodup
  value : ∀ i ∈ waiting, members.lookup (key i) = some (count i)
  present : ∀ i < size, ∃ value, members.lookup (key i) = some value
  free : members.lookup "extra/slash" = none

/-- The members while numbers wait to be removed: those that wait are there. -/
structure Thinned (length : Nat) (waiting : List Nat) (members : List (String × Node)) : Prop where
  ascending : Members.Ascending members
  length : members.length = length + waiting.length
  nodup : waiting.Nodup
  present : ∀ i ∈ waiting, ∃ value, members.lookup (key i) = some value
  free : members.lookup "extra/slash" = none

theorem tested_numbered (size : Nat) :
    Tested size (spaced 0 4 size) (numbered size) where
  ascending := (ordered_numbered size).1
  length := length_numbered size
  nodup := nodup_spaced 0 4 size
  value _ hi := lookup_numbered (mem_spaced.mp hi).1
  present _ hi := ⟨_, lookup_numbered hi⟩
  free := lookup_numbered_of_ne fun i _ => (key_ne_slashed i).symm

/-- A round of a test and a replacement touches one member only. -/
theorem Tested.round {size i : Nat} {waiting : List Nat} {members : List (String × Node)}
    (h : Tested size (i :: waiting) members) :
    ∃ next, Patch.applySingly (replacing i) (object members) = .ok (object next) ∧
      Tested size waiting next := by
  have hvalue := h.value i List.mem_cons_self
  have hnodup := (List.nodup_cons.mp h.nodup).2
  refine ⟨Members.insert (key i) (.string ("v" ++ toString i)) members, ?_, ?_⟩
  · have hlookup : (object members).lookup (spell [key i]) = .ok (count i) := by
      rw [lookup_eq_ok_iff (tokens_spell_singleton (key i))]
      exact ⟨object members, rfl, hvalue⟩
    have htest : ((Operation.test (spell [key i]) (count i)).apply (object members)).outcome =
        .ok (object members) := by
      rw [Operation.apply_test_eq_ok_iff]
      exact ⟨rfl, count i, hlookup, same_self (count i)⟩
    rw [replacing, Patch.applySingly_cons_eq_ok_iff]
    refine ⟨object members, htest, ?_⟩
    rw [Patch.applySingly_cons_eq_ok_iff]
    exact ⟨_, rfl, rfl⟩
  · refine ⟨Members.ascending_insert _ _ members h.ascending, ?_, hnodup, ?_, ?_, ?_⟩
    · rw [Members.length_insert_of_lookup h.ascending hvalue, h.length]
    · intro j hj
      rw [Members.lookup_insert_of_ne (key_ne_of_nodup h.nodup hj),
        h.value j (List.mem_cons_of_mem i hj)]
    · intro j hj
      by_cases heq : key j = key i
      · exact ⟨_, by rw [heq, Members.lookup_insert_self]⟩
      · rw [Members.lookup_insert_of_ne heq]
        exact h.present j hj
    · rw [Members.lookup_insert_of_ne (key_ne_slashed i).symm, h.free]

theorem Tested.rounds {size : Nat} {waiting : List Nat} {members : List (String × Node)}
    (h : Tested size waiting members) :
    ∃ result, Patch.applySingly (waiting.flatMap replacing) (object members) = .ok (object result) ∧
      Tested size [] result :=
  Patch.exists_applySingly_flatMap (Tested size) (fun _ _ _ hround => hround.round)
    waiting members h

/-- A removal takes one member away, and leaves those that wait. -/
theorem Thinned.round {length i : Nat} {waiting : List Nat} {members : List (String × Node)}
    (h : Thinned length (i :: waiting) members) :
    ∃ next, Patch.applySingly (removing i) (object members) = .ok (object next) ∧
      Thinned length waiting next := by
  obtain ⟨value, hvalue⟩ := h.present i List.mem_cons_self
  have hnodup := (List.nodup_cons.mp h.nodup).2
  refine ⟨Members.erase (key i) members, ?_, ?_⟩
  · have hremove : ((Operation.remove (spell [key i])).apply (object members)).outcome =
        .ok (object (Members.erase (key i) members)) := by
      change ((removeChild _ (object members) (key i)).outcome).mapError ApplyError.location = _
      rw [removeChild_object]
      rfl
    rw [removing, Patch.applySingly_cons_eq_ok_iff]
    exact ⟨_, hremove, rfl⟩
  · refine ⟨Members.ascending_erase _ members h.ascending, ?_, hnodup, ?_, ?_⟩
    · have herase := Members.length_erase hvalue
      have hlength := h.length
      rw [List.length_cons] at hlength
      omega
    · intro j hj
      rw [Members.lookup_erase_of_ne (key_ne_of_nodup h.nodup hj)]
      exact h.present j (List.mem_cons_of_mem i hj)
    · rw [Members.lookup_erase_of_ne (key_ne_slashed i).symm, h.free]

theorem Thinned.rounds {length : Nat} {waiting : List Nat} {members : List (String × Node)}
    (h : Thinned length waiting members) :
    ∃ result, Patch.applySingly (waiting.flatMap removing) (object members) = .ok (object result) ∧
      Thinned length [] result :=
  Patch.exists_applySingly_flatMap (Thinned length) (fun _ _ _ hround => hround.round)
    waiting members h

theorem flatObject_applies (size : Nat) :
    ∃ document patch members, (flatObject size).load = .ok (document, patch) ∧
      (patch.apply document).outcome = .ok (object members) ∧
      members.length = size - (size + 6) / 8 + 1 := by
  have hne : flatOperations size ≠ [] := by simp [flatOperations]
  obtain ⟨tested, htest, htested⟩ := (tested_numbered size).rounds
  have hcount : (spaced 1 8 size).length ≤ size := by
    have hle := (List.range size).length_filter_le fun i => i % 8 == 1
    rwa [List.length_range] at hle
  have hthinned : Thinned (size - (spaced 1 8 size).length) (spaced 1 8 size) tested :=
    { ascending := htested.ascending
      length := by
        have hlength := htested.length
        omega
      nodup := nodup_spaced 1 8 size
      present := fun i hi => htested.present i (mem_spaced.mp hi).1
      free := htested.free }
  obtain ⟨thinned, hthin, hlast⟩ := hthinned.rounds
  refine ⟨object (numbered size), ⟨flatOperations size, hne⟩, Members.insert "extra/slash"
    (.object [("nested", .array [count 1, count 2, count 3])]) thinned, ?_, ?_, ?_⟩
  · rw [flatObject_eq]
    exact load_spelled (ordered_numbered size) hne isSound_flatOperations
  · have hadd : Patch.applySingly [adding] (object thinned) = .ok (object
        (Members.insert "extra/slash"
          (.object [("nested", .array [count 1, count 2, count 3])]) thinned)) := by
      rw [Patch.applySingly_cons_eq_ok_iff]
      exact ⟨_, rfl, rfl⟩
    rw [Patch.apply, Patch.applyFrom_outcome]
    change Patch.applySingly (_ ++ _ ++ [adding]) _ = _
    rw [Patch.applySingly_append_eq_ok_iff]
    exact ⟨_, Patch.applySingly_append_eq_ok_iff.mpr ⟨_, htest, hthin⟩, hadd⟩
  · rw [Members.length_insert_of_lookup_none hlast.ascending hlast.free, hlast.length,
      length_spaced (by omega), List.length_nil]
    omega

end JsonPatch.Fixture
