import JsonPatch.Proofs.Members
import JsonPatch.Proofs.Traced

namespace JsonPatch

theorem Number.ofNumeral_toNumeral (n : Number) : Number.ofNumeral n.toNumeral = .ok n := by
  cases n with
  | double x => rfl
  | integer i low high =>
    by_cases hi : 0 ≤ i
    · have hword : (UInt64.ofNat i.toNat).toNat = i.toNat :=
        UInt64.toNat_ofNat_of_lt' (by simp only [UInt64.size]; omega)
      simp only [toNumeral, if_pos hi, ofNumeral, ofUInt64, hword, Int.toNat_of_nonneg hi]
    · have hword : (Int64.ofInt i).toInt = i := Int64.toInt_ofInt_of_le low (by omega)
      simp only [toNumeral, if_neg hi, ofNumeral, ofInt64, hword]

/-- A numeral that a text can denote is that of its number. -/
theorem Number.toNumeral_ofNumeral {n : Numeral} (h : n.Canonical) :
    ∃ number, Number.ofNumeral n = .ok number ∧ number.toNumeral = n := by
  cases n with
  | unsigned u =>
    refine ⟨ofUInt64 u, rfl, ?_⟩
    have hnonneg : (0 : Int) ≤ u.toNat := Int.natCast_nonneg u.toNat
    simp only [ofUInt64, toNumeral, if_pos hnonneg, Int.toNat_natCast, UInt64.ofNat_toNat]
  | signed i =>
    refine ⟨ofInt64 i, rfl, ?_⟩
    have hneg : ¬0 ≤ i.toInt := by
      have hlt := Int64.lt_iff_toInt_lt.mp h
      rw [Int64.toInt_zero] at hlt
      omega
    simp only [ofInt64, toNumeral, if_neg hneg, Int64.ofInt_toInt]
  | double d =>
    cases d with
    | finite x => exact ⟨.double x, rfl, rfl⟩
    | infinite negative => exact h.elim
    | nan => exact h.elim

namespace Node

theorem itemsOrdered_iff (items : List Node) :
    ItemsOrdered items ↔ ∀ item ∈ items, item.Ordered := by
  induction items with
  | nil => simp [ItemsOrdered]
  | cons item items ih => simp [ItemsOrdered, ih]

theorem membersOrdered_iff (members : List (String × Node)) :
    MembersOrdered members ↔ ∀ m ∈ members, m.2.Ordered := by
  induction members with
  | nil => simp [MembersOrdered]
  | cons m members ih => simp [MembersOrdered, ih]

theorem ordered_insert {name : String} {value : Node} {members : List (String × Node)}
    (hvalue : value.Ordered) (h : (object members).Ordered) :
    (object (Members.insert name value members)).Ordered := by
  refine ⟨Members.ascending_insert name value members h.1, ?_⟩
  rw [membersOrdered_iff]
  exact Members.forall_mem_insert (p := fun (m : String × Node) => m.2.Ordered) name value members
    hvalue ((membersOrdered_iff members).mp h.2)

theorem ordered_ofList {members : List (String × Node)} (h : ∀ m ∈ members, m.2.Ordered) :
    (object (Members.ofList members)).Ordered := by
  refine List.foldlRecOn (motive := fun sorted => (object sorted).Ordered) members _
    ⟨Members.ascending_nil, trivial⟩ ?_
  intro sorted hsorted m hm
  exact ordered_insert (h m hm) hsorted

theorem ordered_of_ofNumeral {n : Numeral} {node : Node} (h : ofNumeral n = .ok node) :
    node.Ordered := by
  unfold ofNumeral at h
  split at h
  · cases h
    trivial
  · cases h

mutual

theorem ordered_of_ofJson : (value : Json) → {node : Node} → ofJson value = .ok node →
    node.Ordered
  | .null, _, h => by cases h; trivial
  | .bool _, _, h => by cases h; trivial
  | .number _, _, h => ordered_of_ofNumeral h
  | .string _, _, h => by cases h; trivial
  | .array items, _, h => by
    obtain ⟨nodes, hnodes, hnode⟩ := bind_eq_ok.mp h
    cases hnode
    exact ordered_of_itemsOfJson items hnodes
  | .object members, _, h => by
    obtain ⟨nodes, hnodes, hnode⟩ := bind_eq_ok.mp h
    cases hnode
    exact ordered_of_membersOfJson members ⟨Members.ascending_nil, trivial⟩ hnodes

theorem ordered_of_itemsOfJson : (items : List Json) → {nodes : List Node} →
    itemsOfJson items = .ok nodes → ItemsOrdered nodes
  | [], _, h => by cases h; trivial
  | item :: items, _, h => by
    obtain ⟨node, hnode, hrest⟩ := bind_eq_ok.mp h
    obtain ⟨nodes, hnodes, hall⟩ := bind_eq_ok.mp hrest
    cases hall
    exact ⟨ordered_of_ofJson item hnode, ordered_of_itemsOfJson items hnodes⟩

theorem ordered_of_membersOfJson : (members : List (String × Json)) →
    {before nodes : List (String × Node)} → (object before).Ordered →
    membersOfJson before members = .ok nodes → (object nodes).Ordered
  | [], _, _, hbefore, h => by cases h; exact hbefore
  | (_, value) :: members, _, _, hbefore, h => by
    obtain ⟨node, hnode, hrest⟩ := bind_eq_ok.mp h
    exact ordered_of_membersOfJson members
      (ordered_insert (ordered_of_ofJson value hnode) hbefore) hrest

end

mutual

theorem ordered_of_ofYaml : (value : Yaml) → {node : Node} → ofYaml value = .ok node →
    node.Ordered
  | .null, _, h => by cases h; trivial
  | .bool _, _, h => by cases h; trivial
  | .number _, _, h => ordered_of_ofNumeral h
  | .string _, _, h => by cases h; trivial
  | .sequence items, _, h => by
    obtain ⟨nodes, hnodes, hnode⟩ := bind_eq_ok.mp h
    cases hnode
    exact ordered_of_itemsOfYaml items hnodes
  | .mapping entries, _, h => by
    obtain ⟨nodes, hnodes, hnode⟩ := bind_eq_ok.mp h
    cases hnode
    exact ordered_of_membersOfYaml entries ⟨Members.ascending_nil, trivial⟩ hnodes
  | .tagged _ _, _, h => by cases h

theorem ordered_of_itemsOfYaml : (items : List Yaml) → {nodes : List Node} →
    itemsOfYaml items = .ok nodes → ItemsOrdered nodes
  | [], _, h => by cases h; trivial
  | item :: items, _, h => by
    obtain ⟨node, hnode, hrest⟩ := bind_eq_ok.mp h
    obtain ⟨nodes, hnodes, hall⟩ := bind_eq_ok.mp hrest
    cases hall
    exact ⟨ordered_of_ofYaml item hnode, ordered_of_itemsOfYaml items hnodes⟩

theorem ordered_of_membersOfYaml : (entries : List (Yaml × Yaml)) →
    {before nodes : List (String × Node)} → (object before).Ordered →
    membersOfYaml before entries = .ok nodes → (object nodes).Ordered
  | [], _, _, hbefore, h => by cases h; exact hbefore
  | (key, value) :: entries, _, _, hbefore, h => by
    cases key with
    | string name =>
      obtain ⟨node, hnode, hrest⟩ := bind_eq_ok.mp h
      exact ordered_of_membersOfYaml entries
        (ordered_insert (ordered_of_ofYaml value hnode) hbefore) hrest
    | _ => cases h

end

theorem ordered_of_read {format : Format} {text : String} {node : Node}
    (h : read format text = .ok node) : node.Ordered := by
  cases format with
  | json =>
    change ofJsonText text = .ok node at h
    unfold ofJsonText at h
    split at h
    · exact ordered_of_ofJson _ h
    · cases h
  | yaml =>
    change ofYamlText text = .ok node at h
    unfold ofYamlText at h
    split at h
    · exact ordered_of_ofYaml _ h
    · cases h

/-- Members whose names ascend are converted one by one: each stands behind those before it. -/
theorem membersOfJson_of_alike {members : List (String × Json)} {nodes : List (String × Node)}
    (h : Members.Alike (fun value node => ofJson value = .ok node) members nodes)
    (before : List (String × Node)) (hascending : Members.Ascending (before ++ nodes)) :
    membersOfJson before members = .ok (before ++ nodes) := by
  induction h generalizing before with
  | nil => rw [membersOfJson, List.append_nil]
  | @cons m n members nodes hm _ ih =>
    obtain ⟨name, value⟩ := m
    obtain ⟨_, node⟩ := n
    obtain ⟨rfl, hvalue⟩ := hm
    have hlt : ∀ m ∈ before, m.1 < name := fun m hm =>
      (List.pairwise_append.mp hascending).2.2 m hm _ List.mem_cons_self
    have hsplit : before ++ (name, node) :: nodes = before ++ [(name, node)] ++ nodes := by
      rw [List.append_assoc, List.singleton_append]
    rw [membersOfJson, hvalue, hsplit]
    change membersOfJson (Members.insert name node before) members = _
    rw [Members.insert_of_forall_lt name node before hlt]
    exact ih (before ++ [(name, node)]) (hsplit ▸ hascending)

mutual

/-- A document is the one that its JSON value denotes. -/
theorem ofJson_toJson : (node : Node) → node.Ordered → ofJson node.toJson = .ok node
  | .null, _ => rfl
  | .bool _, _ => rfl
  | .number n, _ => by rw [toJson, ofJson, ofNumeral, Number.ofNumeral_toNumeral]
  | .string _, _ => rfl
  | .array items, h => by
    rw [toJson, ofJson, itemsOfJson_itemsToJson items h]
    rfl
  | .object members, h => by
    rw [toJson, ofJson, membersOfJson_of_alike (alike_membersToJson members h.2) [] h.1]
    rfl

theorem itemsOfJson_itemsToJson : (items : List Node) → ItemsOrdered items →
    itemsOfJson (itemsToJson items) = .ok items
  | [], _ => rfl
  | item :: items, h => by
    rw [itemsToJson, itemsOfJson, ofJson_toJson item h.1, itemsOfJson_itemsToJson items h.2]
    rfl

theorem alike_membersToJson : (members : List (String × Node)) → MembersOrdered members →
    Members.Alike (fun value node => ofJson value = .ok node) (membersToJson members) members
  | [], _ => .nil
  | (_, value) :: members, h =>
    .cons ⟨rfl, ofJson_toJson value h.1⟩ (alike_membersToJson members h.2)

end

mutual

/-- A JSON value is that of the document that it denotes. -/
theorem toJson_ofJson : (value : Json) → value.Canonical →
    ∃ node, ofJson value = .ok node ∧ node.toJson = value
  | .null, _ => ⟨null, rfl, rfl⟩
  | .bool b, _ => ⟨bool b, rfl, rfl⟩
  | .number n, h => by
    obtain ⟨m, hof, hto⟩ := Number.toNumeral_ofNumeral h
    refine ⟨number m, ?_, ?_⟩
    · rw [ofJson, ofNumeral, hof]
    · rw [toJson, hto]
  | .string s, _ => ⟨string s, rfl, rfl⟩
  | .array items, h => by
    obtain ⟨nodes, hof, hto⟩ := itemsToJson_itemsOfJson items h
    refine ⟨array nodes, ?_, ?_⟩
    · rw [ofJson, hof]
      rfl
    · rw [toJson, hto]
  | .object members, h => by
    obtain ⟨nodes, halike, hto⟩ := membersToJson_of_alike members h.2
    have hascending : Members.Ascending nodes := Members.ascending_of_names halike.names h.1
    refine ⟨object nodes, ?_, ?_⟩
    · rw [ofJson, membersOfJson_of_alike halike [] hascending]
      rfl
    · rw [toJson, hto]

theorem itemsToJson_itemsOfJson : (items : List Json) → Json.ItemsCanonical items →
    ∃ nodes, itemsOfJson items = .ok nodes ∧ itemsToJson nodes = items
  | [], _ => ⟨[], rfl, rfl⟩
  | item :: items, h => by
    obtain ⟨node, hnode, hitem⟩ := toJson_ofJson item h.1
    obtain ⟨nodes, hnodes, hitems⟩ := itemsToJson_itemsOfJson items h.2
    refine ⟨node :: nodes, ?_, ?_⟩
    · rw [itemsOfJson, hnode, hnodes]
      rfl
    · rw [itemsToJson, hitem, hitems]

theorem membersToJson_of_alike : (members : List (String × Json)) →
    Json.MembersCanonical members → ∃ nodes,
      Members.Alike (fun value node => ofJson value = .ok node) members nodes ∧
      membersToJson nodes = members
  | [], _ => ⟨[], .nil, rfl⟩
  | (name, value) :: members, h => by
    obtain ⟨node, hnode, hvalue⟩ := toJson_ofJson value h.1
    obtain ⟨nodes, halike, hmembers⟩ := membersToJson_of_alike members h.2
    refine ⟨(name, node) :: nodes, .cons ⟨rfl, hnode⟩ halike, ?_⟩
    rw [membersToJson, hvalue, hmembers]

end

end Node

end JsonPatch
