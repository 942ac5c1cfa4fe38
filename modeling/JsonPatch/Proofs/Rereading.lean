import JsonPatch.Proofs.Conversion
import JsonPatch.Proofs.Meaning
import JsonPatch.Proofs.Json.Text

namespace JsonPatch

/-- What holds of a list that is made of a first element and the others, if there are any. -/
theorem exists_cons_iff {α β : Type} {f : α → β} {first : Option α} {rest : Option (List β)}
    {p : List β → Prop} {q : α → Prop} {r : List β → Prop}
    (h : ∀ a as, p (f a :: as) ↔ q a ∧ r as) :
    (∃ all, (do let a ← first; some (f a :: (← rest))) = some all ∧ p all) ↔
      (∃ a, first = some a ∧ q a) ∧ ∃ as, rest = some as ∧ r as := by
  cases first with
  | none => simp
  | some a => cases rest <;> simp [h]

/-- The double that the text of a double denotes to the reader, which rounds twice. -/
def Binary64.reread? (x : Binary64) : Option Binary64 :=
  match Json.Numeral.read? (Shortest.text "e+" x).toList with
  | some (.double d) => d.finite?
  | _ => none

/-- Whether the text of a double is read as an equal one. -/
def Binary64.IsStable (x : Binary64) : Prop := ∃ y, x.reread? = some y ∧ y.same x = true

instance (x : Binary64) : Decidable x.IsStable :=
  match h : x.reread? with
  | none => isFalse (by simp [Binary64.IsStable, h])
  | some y => decidable_of_iff (y.same x = true) (by simp [Binary64.IsStable, h])

-- 3.385760014797661e-30
example : ¬ Binary64.IsStable ⟨false, 4166158373859514362, by decide⟩ := by decide +kernel

namespace Number

/-- The number that the text of a number denotes to the reader. -/
def reread? : Number → Option Number
  | .integer i low high => some (.integer i low high)
  | .double x => x.reread?.map .double

theorem canonical_toNumeral (n : Number) : n.toNumeral.Canonical := by
  cases n with
  | double x => trivial
  | integer i low high =>
    unfold toNumeral
    dsimp only
    split
    · trivial
    · have hword : (Int64.ofInt i).toInt = i := Int64.toInt_ofInt_of_le low (by omega)
      change Int64.ofInt i < 0
      rw [Int64.lt_iff_toInt_lt, hword, Int64.toInt_zero]
      omega

theorem read?_text (n : Number) :
    Json.Numeral.read? (n.toNumeral.text "e+").toList = n.reread?.map toNumeral := by
  cases n with
  | integer i low high =>
    have hcanonical := canonical_toNumeral (.integer i low high)
    change _ = some (toNumeral (.integer i low high))
    cases h : toNumeral (.integer i low high) with
    | unsigned u => exact Json.Numeral.read?_unsigned u
    | signed i =>
      rw [h] at hcanonical
      exact Json.Numeral.read?_signed hcanonical
    | double d =>
      unfold toNumeral at h
      dsimp only at h
      split at h <;> cases h
  | double x =>
    change Json.Numeral.read? (Shortest.text "e+" x).toList = _
    rw [reread?, Binary64.reread?]
    cases h : Json.Numeral.read? (Shortest.text "e+" x).toList with
    | none => rfl
    | some n =>
      obtain ⟨y, rfl⟩ := Json.Numeral.double_of_read? h
      rfl

end Number

namespace Node

mutual

/-- How deep the containers of a document nest. -/
def depth : Node → Nat
  | array items => itemsDepth items + 1
  | object members => membersDepth members + 1
  | _ => 0

/-- The largest depth of the elements of an array. -/
def itemsDepth : List Node → Nat
  | [] => 0
  | item :: items => max (depth item) (itemsDepth items)

/-- The largest depth of the values of an object. -/
def membersDepth : List (String × Node) → Nat
  | [] => 0
  | (_, value) :: members => max (depth value) (membersDepth members)

end

theorem itemsDepth_le_iff (items : List Node) (n : Nat) :
    itemsDepth items ≤ n ↔ ∀ item ∈ items, item.depth ≤ n := by
  induction items with
  | nil => simp [itemsDepth]
  | cons item items ih => rw [itemsDepth, Nat.max_le, List.forall_mem_cons, ih]

mutual

/-- The document with each number read from its text, if all of them can be read. -/
def reread? : Node → Option Node
  | number n => n.reread?.map number
  | array items => (rereadItems? items).map array
  | object members => (rereadMembers? members).map object
  | node => some node

/-- `reread?` for the elements of an array. -/
def rereadItems? : List Node → Option (List Node)
  | [] => some []
  | item :: items => do
    let item ← reread? item
    some (item :: (← rereadItems? items))

/-- `reread?` for the values of an object. -/
def rereadMembers? : List (String × Node) → Option (List (String × Node))
  | [] => some []
  | (name, value) :: members => do
    let value ← reread? value
    some ((name, value) :: (← rereadMembers? members))

end

mutual

theorem depth_toJson : (node : Node) → node.toJson.depth = node.depth
  | null => rfl
  | bool _ => rfl
  | number _ => rfl
  | string _ => rfl
  | array items => by rw [toJson, Json.depth, depth, itemsDepth_itemsToJson items]
  | object members => by rw [toJson, Json.depth, depth, membersDepth_membersToJson members]

theorem itemsDepth_itemsToJson : (items : List Node) →
    Json.itemsDepth (itemsToJson items) = itemsDepth items
  | [] => rfl
  | item :: items => by
    rw [itemsToJson, Json.itemsDepth, itemsDepth, depth_toJson item, itemsDepth_itemsToJson items]

theorem membersDepth_membersToJson : (members : List (String × Node)) →
    Json.membersDepth (membersToJson members) = membersDepth members
  | [] => rfl
  | (_, value) :: members => by
    rw [membersToJson, Json.membersDepth, membersDepth, depth_toJson value,
      membersDepth_membersToJson members]

end

theorem names_membersToJson (members : List (String × Node)) :
    (membersToJson members).map Prod.fst = members.map Prod.fst := by
  induction members with
  | nil => rfl
  | cons m members ih =>
    obtain ⟨name, value⟩ := m
    rw [membersToJson, List.map_cons, List.map_cons, ih]

mutual

theorem canonical_toJson : (node : Node) → node.Ordered → node.toJson.Canonical
  | null, _ => trivial
  | bool _, _ => trivial
  | number n, _ => n.canonical_toNumeral
  | string _, _ => trivial
  | array items, h => canonical_itemsToJson items h
  | object members, h =>
    ⟨Members.ascending_of_names (names_membersToJson members) h.1,
      canonical_membersToJson members h.2⟩

theorem canonical_itemsToJson : (items : List Node) → ItemsOrdered items →
    Json.ItemsCanonical (itemsToJson items)
  | [], _ => trivial
  | item :: items, h => ⟨canonical_toJson item h.1, canonical_itemsToJson items h.2⟩

theorem canonical_membersToJson : (members : List (String × Node)) → MembersOrdered members →
    Json.MembersCanonical (membersToJson members)
  | [], _ => trivial
  | (_, value) :: members, h =>
    ⟨canonical_toJson value h.1, canonical_membersToJson members h.2⟩

end

mutual

theorem reread?_toJson : (node : Node) → node.toJson.reread? = node.reread?.map toJson
  | null => rfl
  | bool _ => rfl
  | number n => by
    rw [toJson, Json.reread?, n.read?_text, reread?]
    cases n.reread? <;> rfl
  | string _ => rfl
  | array items => by
    rw [toJson, Json.reread?, rereadItems?_itemsToJson items, reread?]
    cases rereadItems? items <;> rfl
  | object members => by
    rw [toJson, Json.reread?, rereadMembers?_membersToJson members, reread?]
    cases rereadMembers? members <;> rfl

theorem rereadItems?_itemsToJson : (items : List Node) →
    Json.rereadItems? (itemsToJson items) = (rereadItems? items).map itemsToJson
  | [] => rfl
  | item :: items => by
    rw [itemsToJson, Json.rereadItems?, reread?_toJson item, rereadItems?_itemsToJson items,
      rereadItems?]
    cases item.reread? with
    | none => rfl
    | some item => cases rereadItems? items <;> rfl

theorem rereadMembers?_membersToJson : (members : List (String × Node)) →
    Json.rereadMembers? (membersToJson members) = (rereadMembers? members).map membersToJson
  | [] => rfl
  | (name, value) :: members => by
    rw [membersToJson, Json.rereadMembers?, reread?_toJson value,
      rereadMembers?_membersToJson members, rereadMembers?]
    cases value.reread? with
    | none => rfl
    | some value => cases rereadMembers? members <;> rfl

end

mutual

theorem ordered_reread? : (node : Node) → node.Ordered → {again : Node} →
    node.reread? = some again → again.Ordered
  | null, _, _, heq => by
    cases heq
    trivial
  | bool _, _, _, heq => by
    cases heq
    trivial
  | number _, _, _, heq => by
    obtain ⟨n, -, rfl⟩ := Option.map_eq_some_iff.mp heq
    trivial
  | string _, _, _, heq => by
    cases heq
    trivial
  | array items, h, _, heq => by
    obtain ⟨again, hagain, rfl⟩ := Option.map_eq_some_iff.mp heq
    exact ordered_rereadItems? items h hagain
  | object members, h, _, heq => by
    obtain ⟨again, hagain, rfl⟩ := Option.map_eq_some_iff.mp heq
    obtain ⟨hordered, hnames⟩ := ordered_rereadMembers? members h.2 hagain
    exact ⟨Members.ascending_of_names hnames h.1, hordered⟩

theorem ordered_rereadItems? : (items : List Node) → ItemsOrdered items → {again : List Node} →
    rereadItems? items = some again → ItemsOrdered again
  | [], _, _, heq => by
    cases heq
    trivial
  | item :: items, h, _, heq => by
    obtain ⟨first, hfirst, hrest⟩ := Option.bind_eq_some_iff.mp heq
    obtain ⟨again, hagain, hcons⟩ := Option.bind_eq_some_iff.mp hrest
    cases hcons
    exact ⟨ordered_reread? item h.1 hfirst, ordered_rereadItems? items h.2 hagain⟩

theorem ordered_rereadMembers? : (members : List (String × Node)) → MembersOrdered members →
    {again : List (String × Node)} → rereadMembers? members = some again →
    MembersOrdered again ∧ again.map Prod.fst = members.map Prod.fst
  | [], _, _, heq => by
    cases heq
    exact ⟨trivial, rfl⟩
  | (name, value) :: members, h, _, heq => by
    obtain ⟨first, hfirst, hrest⟩ := Option.bind_eq_some_iff.mp heq
    obtain ⟨again, hagain, hcons⟩ := Option.bind_eq_some_iff.mp hrest
    cases hcons
    obtain ⟨hordered, hnames⟩ := ordered_rereadMembers? members h.2 hagain
    exact ⟨⟨ordered_reread? value h.1 hfirst, hordered⟩, by
      rw [List.map_cons, List.map_cons, hnames]⟩

end

/-- The text of a document is read as the document, each number read from its text, unless
containers nest too deep. -/
theorem ofJsonText_text_eq_ok_iff {node : Node} (h : node.Ordered) (again : Node) :
    ofJsonText node.text = .ok again ↔
      node.depth ≤ Json.maxDepth ∧ node.reread? = some again := by
  have hread := Json.read?_compact (canonical_toJson node h)
  rw [depth_toJson, reread?_toJson] at hread
  rw [ofJsonText, text, hread]
  by_cases hdepth : node.depth ≤ Json.maxDepth
  · rw [if_pos hdepth]
    cases hagain : node.reread? with
    | none => simp
    | some found =>
      rw [Option.map_some]
      dsimp only
      rw [ofJson_toJson found (ordered_reread? node h hagain)]
      simp [hdepth]
  · simp [hdepth]

mutual

/-- The doubles of a document. -/
def doubles : Node → List Binary64
  | number (.double x) => [x]
  | array items => itemDoubles items
  | object members => memberDoubles members
  | _ => []

/-- The doubles of the elements of an array. -/
def itemDoubles : List Node → List Binary64
  | [] => []
  | item :: items => doubles item ++ itemDoubles items

/-- The doubles of the values of an object. -/
def memberDoubles : List (String × Node) → List Binary64
  | [] => []
  | (_, value) :: members => doubles value ++ memberDoubles members

end

mutual

/-- Numbers read from their texts make an equal document exactly when every double does. -/
theorem exists_reread?_same_iff : (node : Node) →
    ((∃ again, node.reread? = some again ∧ again.same node = true) ↔
      ∀ x ∈ node.doubles, x.IsStable)
  | null => by simp [reread?, same, doubles]
  | bool _ => by simp [reread?, same, doubles]
  | number (.integer i _ _) => by simp [reread?, Number.reread?, same, Number.same, doubles]
  | number (.double x) => by
    simp only [reread?, Number.reread?, doubles, List.forall_mem_singleton, Binary64.IsStable]
    cases x.reread? with
    | none => simp
    | some y => simp [same, Number.same]
  | string _ => by simp [reread?, same, doubles]
  | array items => by
    rw [doubles, ← exists_rereadItems?_same_iff items, reread?]
    cases rereadItems? items <;> simp [same]
  | object members => by
    rw [doubles, ← exists_rereadMembers?_same_iff members, reread?]
    cases rereadMembers? members <;> simp [same]

theorem exists_rereadItems?_same_iff : (items : List Node) →
    ((∃ again, rereadItems? items = some again ∧ sameItems again items = true) ↔
      ∀ x ∈ itemDoubles items, x.IsStable)
  | [] => by simp [rereadItems?, sameItems, itemDoubles]
  | item :: items => by
    rw [itemDoubles, List.forall_mem_append, ← exists_reread?_same_iff item,
      ← exists_rereadItems?_same_iff items, rereadItems?]
    refine exists_cons_iff fun again rest => ?_
    rw [sameItems, Bool.and_eq_true]

theorem exists_rereadMembers?_same_iff : (members : List (String × Node)) →
    ((∃ again, rereadMembers? members = some again ∧ sameMembers again members = true) ↔
      ∀ x ∈ memberDoubles members, x.IsStable)
  | [] => by simp [rereadMembers?, sameMembers, memberDoubles]
  | (name, value) :: members => by
    rw [memberDoubles, List.forall_mem_append, ← exists_reread?_same_iff value,
      ← exists_rereadMembers?_same_iff members, rereadMembers?]
    refine exists_cons_iff (f := fun value => (name, value)) fun again rest => ?_
    rw [sameMembers, beq_self_eq_true, Bool.true_and, Bool.and_eq_true]

end

mutual

/-- Numbers read from their texts make the same document, held as before, exactly when every double
is the one that its text denotes. Integers always are what their texts denote. -/
theorem reread?_eq_self_iff : (node : Node) →
    (node.reread? = some node ↔ ∀ x ∈ node.doubles, x.reread? = some x)
  | null => by simp [reread?, doubles]
  | bool _ => by simp [reread?, doubles]
  | number (.integer i _ _) => by simp [reread?, Number.reread?, doubles]
  | number (.double x) => by
    simp only [reread?, Number.reread?, doubles, List.forall_mem_singleton]
    cases x.reread? <;> simp
  | string _ => by simp [reread?, doubles]
  | array items => by
    rw [doubles, ← rereadItems?_eq_self_iff items, reread?]
    simp
  | object members => by
    rw [doubles, ← rereadMembers?_eq_self_iff members, reread?]
    simp

theorem rereadItems?_eq_self_iff : (items : List Node) →
    (rereadItems? items = some items ↔ ∀ x ∈ itemDoubles items, x.reread? = some x)
  | [] => by simp [rereadItems?, itemDoubles]
  | item :: items => by
    rw [itemDoubles, List.forall_mem_append, ← reread?_eq_self_iff item,
      ← rereadItems?_eq_self_iff items, rereadItems?]
    simp [Option.bind_eq_some_iff]

theorem rereadMembers?_eq_self_iff : (members : List (String × Node)) →
    (rereadMembers? members = some members ↔ ∀ x ∈ memberDoubles members, x.reread? = some x)
  | [] => by simp [rereadMembers?, memberDoubles]
  | (name, value) :: members => by
    rw [memberDoubles, List.forall_mem_append, ← reread?_eq_self_iff value,
      ← rereadMembers?_eq_self_iff members, rereadMembers?]
    simp [Option.bind_eq_some_iff]

end

/-- When the text of a document is read as that very document. -/
theorem ofJsonText_text_eq_self_iff {node : Node} (h : node.Ordered) :
    ofJsonText node.text = .ok node ↔
      node.depth ≤ Json.maxDepth ∧ ∀ x ∈ node.doubles, x.reread? = some x := by
  rw [ofJsonText_text_eq_ok_iff h, reread?_eq_self_iff]

end Node

end JsonPatch
