import JsonPatch.Proofs.Number.Stored
import JsonPatch.Proofs.Yaml.Places

namespace JsonPatch

namespace Yaml

/-- Whether a value stands somewhere in another one, in keys and behind tags included. -/
inductive Holds : Yaml → Yaml → Prop where
  | here (v : Yaml) : Holds v v
  | item {items : List Yaml} {item w : Yaml} : item ∈ items → Holds item w →
      Holds (.sequence items) w
  | key {entries : List (Yaml × Yaml)} {key value w : Yaml} : (key, value) ∈ entries →
      Holds key w → Holds (.mapping entries) w
  | value {entries : List (Yaml × Yaml)} {key value w : Yaml} : (key, value) ∈ entries →
      Holds value w → Holds (.mapping entries) w
  | marked {tag : String} {value w : Yaml} : Holds value w → Holds (.tagged tag value) w

/-- Whether a value has the shape of a JSON value. -/
structure JsonShaped (v : Yaml) : Prop where
  untagged : ∀ tag value, ¬v.Holds (.tagged tag value)
  keys : ∀ entries key value, v.Holds (.mapping entries) → (key, value) ∈ entries →
    ∃ name, key = .string name
  finite : ∀ d, v.Holds (.number (.double d)) → ∃ x, d = .finite x

theorem JsonShaped.of_part {v w : Yaml} (h : v.JsonShaped) (hpart : ∀ u, w.Holds u → v.Holds u) :
    w.JsonShaped where
  untagged tag value hw := h.untagged tag value (hpart _ hw)
  keys entries key value hw hentry := h.keys entries key value (hpart _ hw) hentry
  finite d hw := h.finite d (hpart _ hw)

namespace Place

theorem mem_inner_sequence {items : List Yaml} {item : Yaml} (h : item ∈ items) :
    value item ∈ (value (.sequence items)).inner :=
  List.mem_map_of_mem h

theorem mem_inner_mapping {entries : List (Yaml × Yaml)} {k v : Yaml} (h : (k, v) ∈ entries) :
    key k ∈ (value (.mapping entries)).inner ∧ value v ∈ (value (.mapping entries)).inner := by
  constructor
  · exact List.mem_flatMap.mpr ⟨(k, v), h, by simp⟩
  · exact List.mem_flatMap.mpr ⟨(k, v), h, by simp⟩

theorem fault?_key_eq_none_iff (k : Yaml) : (key k).fault? = none ↔ ∃ name, k = .string name := by
  cases k <;> simp [fault?]

/-- A clean value holds nothing but clean values: its keys are strings, and hold no others. -/
theorem isClean_of_holds {v w : Yaml} (h : v.Holds w) (hclean : (value v).IsClean) :
    (value w).IsClean := by
  induction h with
  | here v => exact hclean
  | item hitem _ ih => exact ih (hclean.inner (mem_inner_sequence hitem))
  | value hentry _ ih => exact ih (hclean.inner (mem_inner_mapping hentry).2)
  | key hentry _ ih =>
    have hkey := (hclean.inner (mem_inner_mapping hentry).1).fault?
    obtain ⟨name, rfl⟩ := (fault?_key_eq_none_iff _).mp hkey
    exact ih (isClean_of_inner_nil rfl rfl)
  | marked _ _ => cases hclean.fault?

/-- Whether what stands at a place has the shape of a part of a JSON value. -/
def IsJsonShaped : Place → Prop
  | key k => ∃ name, k = .string name
  | value v => v.JsonShaped

theorem IsJsonShaped.fault? {p : Place} (h : p.IsJsonShaped) : p.fault? = none := by
  cases p with
  | key k => exact (fault?_key_eq_none_iff k).mpr h
  | value v =>
    cases v with
    | number n =>
      cases n with
      | double d =>
        obtain ⟨x, rfl⟩ := h.finite d (.here _)
        rfl
      | _ => rfl
    | tagged tag w => exact absurd (.here _) (h.untagged tag w)
    | _ => rfl

theorem IsJsonShaped.inner {p q : Place} (h : p.IsJsonShaped) (hq : q ∈ p.inner) :
    q.IsJsonShaped := by
  cases p with
  | key k => exact absurd hq List.not_mem_nil
  | value v =>
    cases v with
    | sequence items =>
      obtain ⟨item, hitem, rfl⟩ := List.mem_map.mp hq
      exact h.of_part fun _ => .item hitem
    | mapping entries =>
      obtain ⟨⟨k, v⟩, hentry, hq⟩ := List.mem_flatMap.mp hq
      simp only [List.mem_cons, List.not_mem_nil, or_false] at hq
      rcases hq with rfl | rfl
      · exact h.keys entries k v (.here _) hentry
      · exact h.of_part fun _ => .value hentry
    | _ => exact absurd hq List.not_mem_nil

/-- The clean values are those that have the shape of a JSON value. -/
theorem isClean_iff_jsonShaped (v : Yaml) : (value v).IsClean ↔ v.JsonShaped := by
  constructor
  · intro hclean
    refine ⟨?_, ?_, ?_⟩
    · intro tag w hw
      cases (isClean_of_holds hw hclean).fault?
    · intro entries k w hentries hentry
      have hkey := (isClean_of_holds hentries hclean).inner (mem_inner_mapping hentry).1
      exact (fault?_key_eq_none_iff k).mp hkey.fault?
    · intro d hd
      cases d with
      | finite x => exact ⟨x, rfl⟩
      | infinite negative => cases (isClean_of_holds hd hclean).fault?
      | nan => cases (isClean_of_holds hd hclean).fault?
  · intro h
    exact isClean_of_forall (P := IsJsonShaped) (fun _ hp => hp.fault?) (fun _ _ hp => hp.inner) h

end Place

mutual

/-- The JSON value that has the shape of a value, if there is one. Numbers are not looked at. -/
def json? : Yaml → Option Json
  | .null => some .null
  | .bool b => some (.bool b)
  | .number n => some (.number n)
  | .string s => some (.string s)
  | .sequence items => do some (.array (← itemsJson? items))
  | .mapping entries => do some (.ofMembers (← membersJson? entries))
  | .tagged _ _ => none

def itemsJson? : List Yaml → Option (List Json)
  | [] => some []
  | item :: items => do
    let item ← json? item
    some (item :: (← itemsJson? items))

def membersJson? : List (Yaml × Yaml) → Option (List (String × Json))
  | [] => some []
  | (.string name, value) :: entries => do
    let value ← json? value
    some ((name, value) :: (← membersJson? entries))
  | _ => none

end

end Yaml

namespace Json

theorem membersCanonical_iff (members : List (String × Json)) :
    MembersCanonical members ↔ ∀ m ∈ members, m.2.Canonical := by
  induction members with
  | nil => simp [MembersCanonical]
  | cons m members ih => simp [MembersCanonical, ih]

theorem canonical_ofMembers {members : List (String × Json)}
    (h : ∀ m ∈ members, m.2.Canonical) : (ofMembers members).Canonical := by
  refine List.foldlRecOn (motive := fun sorted => (object sorted).Canonical) members _
    ⟨Members.ascending_nil, trivial⟩ ?_
  intro sorted hsorted m hm
  refine ⟨Members.ascending_insert m.1 m.2 sorted hsorted.1, ?_⟩
  rw [membersCanonical_iff]
  exact Members.forall_mem_insert m.1 m.2 sorted (h m hm)
    ((membersCanonical_iff sorted).mp hsorted.2)

end Json

namespace Yaml

mutual

/-- The numbers are kept, and the names of an object are in order. -/
theorem canonical_json? : (v : Yaml) → {value : Json} →
    (∀ n, v.Holds (.number n) → n.Canonical) → v.json? = some value → value.Canonical
  | .null, _, _, h => by cases h; trivial
  | .bool _, _, _, h => by cases h; trivial
  | .number n, _, hnumbers, h => by
    cases h
    exact hnumbers n (.here _)
  | .string _, _, _, h => by cases h; trivial
  | .sequence items, _, hnumbers, h => by
    obtain ⟨values, hvalues, hvalue⟩ := Option.bind_eq_some_iff.mp h
    cases hvalue
    exact canonical_itemsJson? items (fun _ hitem n hn => hnumbers n (.item hitem hn)) hvalues
  | .mapping entries, _, hnumbers, h => by
    obtain ⟨members, hmembers, hvalue⟩ := Option.bind_eq_some_iff.mp h
    cases hvalue
    exact Json.canonical_ofMembers (canonical_membersJson? entries
      (fun _ _ hentry n hn => hnumbers n (.value hentry hn)) hmembers)
  | .tagged _ _, _, _, h => by cases h

theorem canonical_itemsJson? : (items : List Yaml) → {values : List Json} →
    (∀ item ∈ items, ∀ n, item.Holds (.number n) → n.Canonical) →
    itemsJson? items = some values → Json.ItemsCanonical values
  | [], _, _, h => by cases h; trivial
  | item :: items, _, hnumbers, h => by
    obtain ⟨value, hvalue, hrest⟩ := Option.bind_eq_some_iff.mp h
    obtain ⟨values, hvalues, hall⟩ := Option.bind_eq_some_iff.mp hrest
    cases hall
    exact ⟨canonical_json? item (hnumbers item List.mem_cons_self) hvalue,
      canonical_itemsJson? items (fun i hi => hnumbers i (List.mem_cons_of_mem _ hi)) hvalues⟩

theorem canonical_membersJson? : (entries : List (Yaml × Yaml)) →
    {members : List (String × Json)} →
    (∀ key value, (key, value) ∈ entries → ∀ n, value.Holds (.number n) → n.Canonical) →
    membersJson? entries = some members → ∀ m ∈ members, m.2.Canonical
  | [], _, _, h => by
    cases h
    simp
  | (key, value) :: entries, _, hnumbers, h => by
    cases key with
    | string name =>
      obtain ⟨json, hjson, hrest⟩ := Option.bind_eq_some_iff.mp h
      obtain ⟨members, hmembers, hall⟩ := Option.bind_eq_some_iff.mp hrest
      cases hall
      have hvalue := canonical_json? value (hnumbers _ _ List.mem_cons_self) hjson
      have hothers := canonical_membersJson? entries
        (fun k v hentry => hnumbers k v (List.mem_cons_of_mem _ hentry)) hmembers
      exact List.forall_mem_cons.mpr ⟨hvalue, hothers⟩
    | _ => cases h

end

end Yaml

namespace Node

open Yaml (Place)

mutual

/-- The outcome is right for every value: it is a document of a clean one, and the first fault of
any other. -/
theorem judges_ofYaml : (v : Yaml) → Place.Judges [.value v] (ofYaml v)
  | .null => .container rfl (Place.judges_nil null)
  | .bool b => .container rfl (Place.judges_nil (bool b))
  | .number n => by
    cases n with
    | double d =>
      cases d with
      | finite x => exact .container rfl (Place.judges_nil (number (.double x)))
      | infinite negative => exact Place.judges_of_fault? rfl []
      | nan => exact Place.judges_of_fault? rfl []
    | unsigned u => exact .container rfl (Place.judges_nil (number (.ofUInt64 u)))
    | signed i => exact .container rfl (Place.judges_nil (number (.ofInt64 i)))
  | .string s => .container rfl (Place.judges_nil (string s))
  | .sequence items => .container rfl ((judges_itemsOfYaml items).map array)
  | .mapping entries => .container rfl ((judges_membersOfYaml [] entries).map object)
  | .tagged _ _ => Place.judges_of_fault? rfl []

theorem judges_itemsOfYaml : (items : List Yaml) →
    Place.Judges (items.map .value) (itemsOfYaml items)
  | [] => Place.judges_nil []
  | item :: items =>
    (judges_ofYaml item).bind fun node => (judges_itemsOfYaml items).map (node :: ·)

theorem judges_membersOfYaml (before : List (String × Node)) : (entries : List (Yaml × Yaml)) →
    Place.Judges (entries.flatMap fun entry => [.key entry.1, .value entry.2])
      (membersOfYaml before entries)
  | [] => Place.judges_nil before
  | (key, value) :: entries => by
    cases key with
    | string name =>
      have hkey : (Place.key (.string name)).IsClean := Place.isClean_of_inner_nil rfl rfl
      have hrest := (judges_ofYaml value).bind fun node =>
        judges_membersOfYaml (Members.insert name node before) entries
      exact hrest.cons hkey
    | _ => exact Place.judges_of_fault? rfl _

end

mutual

theorem ofJson_of_ofYaml : (v : Yaml) → {node : Node} → ofYaml v = .ok node →
    ∃ value, v.json? = some value ∧ ofJson value = .ok node
  | .null, _, h => ⟨.null, rfl, h⟩
  | .bool b, _, h => ⟨.bool b, rfl, h⟩
  | .number n, _, h => ⟨.number n, rfl, h⟩
  | .string s, _, h => ⟨.string s, rfl, h⟩
  | .sequence items, _, h => by
    obtain ⟨nodes, hnodes, hnode⟩ := bind_eq_ok.mp h
    obtain ⟨values, hjson, hof⟩ := itemsOfJson_of_itemsOfYaml items hnodes
    refine ⟨.array values, ?_, ?_⟩
    · rw [Yaml.json?, hjson]
      rfl
    · rw [ofJson, hof]
      exact hnode
  | .mapping entries, _, h => by
    obtain ⟨nodes, hnodes, hnode⟩ := bind_eq_ok.mp h
    obtain ⟨members, hjson, halike⟩ := alike_of_membersOfYaml entries .nil hnodes
    have hordered := ordered_of_membersOfYaml entries ⟨Members.ascending_nil, trivial⟩ hnodes
    refine ⟨.ofMembers members, ?_, ?_⟩
    · rw [Yaml.json?, hjson]
      rfl
    · rw [Json.ofMembers, ofJson, Members.ofList, membersOfJson_of_alike halike [] hordered.1]
      exact hnode
  | .tagged _ _, _, h => by cases h

theorem itemsOfJson_of_itemsOfYaml : (items : List Yaml) → {nodes : List Node} →
    itemsOfYaml items = .ok nodes →
    ∃ values, Yaml.itemsJson? items = some values ∧ itemsOfJson values = .ok nodes
  | [], _, h => ⟨[], rfl, h⟩
  | item :: items, _, h => by
    obtain ⟨node, hnode, hrest⟩ := bind_eq_ok.mp h
    obtain ⟨nodes, hnodes, hall⟩ := bind_eq_ok.mp hrest
    obtain ⟨value, hvalue, hof⟩ := ofJson_of_ofYaml item hnode
    obtain ⟨values, hvalues, hofs⟩ := itemsOfJson_of_itemsOfYaml items hnodes
    refine ⟨value :: values, ?_, ?_⟩
    · rw [Yaml.itemsJson?, hvalue, hvalues]
      rfl
    · rw [itemsOfJson, hof, hofs]
      exact hall

/-- Members that are inserted one after another stay alike on both sides, since they have the same
names. -/
theorem alike_of_membersOfYaml : (entries : List (Yaml × Yaml)) →
    {sorted : List (String × Json)} → {before nodes : List (String × Node)} →
    Members.Alike (fun value node => ofJson value = .ok node) sorted before →
    membersOfYaml before entries = .ok nodes →
    ∃ members, Yaml.membersJson? entries = some members ∧
      Members.Alike (fun value node => ofJson value = .ok node)
        (members.foldl (fun sorted m => Members.insert m.1 m.2 sorted) sorted) nodes
  | [], _, _, _, halike, h => by
    cases h
    exact ⟨[], rfl, halike⟩
  | (key, value) :: entries, _, _, _, halike, h => by
    cases key with
    | string name =>
      obtain ⟨node, hnode, hrest⟩ := bind_eq_ok.mp h
      obtain ⟨json, hjson, hof⟩ := ofJson_of_ofYaml value hnode
      obtain ⟨members, hmembers, hmore⟩ :=
        alike_of_membersOfYaml entries (halike.insert name hof) hrest
      refine ⟨(name, json) :: members, ?_, hmore⟩
      rw [Yaml.membersJson?, hjson, hmembers]
      rfl
    | _ => cases h

end

/-- A value is a document exactly if it has the shape of a JSON value, whose document it then is. Of
any other value the first fault is reported. -/
theorem ofYaml_accepts_json_shapes (v : Yaml) :
    ((∃ node, ofYaml v = .ok node) ↔ v.JsonShaped) ∧
    (∀ node, ofYaml v = .ok node → ∃ value, v.json? = some value ∧ ofJson value = .ok node ∧
      ((∀ i, v.Holds (.number (.signed i)) → i < 0) → value.Canonical)) ∧
    (∀ e, ofYaml v = .error e ↔ (Place.value v).FirstFault e) ∧
    ∀ n, v.Holds (.number n) →
      StoredNumber.ofNumeral n = (Number.stored <$> Number.ofNumeral n).mapError .notFinite := by
  have hjudges := judges_ofYaml v
  have haccepts : (∃ node, ofYaml v = .ok node) ↔ v.JsonShaped :=
    hjudges.ok_iff.trans (Place.isClean_iff_jsonShaped v)
  refine ⟨haccepts, ?_, hjudges.error_iff, fun n _ => StoredNumber.ofNumeral_eq_map_stored n⟩
  intro node hnode
  obtain ⟨value, hjson, hof⟩ := ofJson_of_ofYaml v hnode
  refine ⟨value, hjson, hof, fun hsigned => ?_⟩
  have hshaped := haccepts.mp ⟨node, hnode⟩
  apply Yaml.canonical_json? v _ hjson
  intro n hn
  cases n with
  | unsigned u => trivial
  | signed i => exact hsigned i hn
  | double d =>
    obtain ⟨x, rfl⟩ := hshaped.finite d hn
    trivial

/-- Names out of order are put in order. A number that is not finite, inside of the first entry,
stands before the key of the second; and a key with a tag is a fault as a key. -/
theorem ofYaml_accepts_json_shapes_and_no_others :
    let shaped : Yaml := .mapping [(.string "b", .number (.signed (-1))), (.string "a", .null)]
    let node := object [("a", null), ("b", number (.ofInt64 (-1)))]
    let early : Yaml × Yaml := (.string "a", .sequence [.null, .number (.double .nan)])
    let late : Yaml × Yaml := (.tagged "key" .null, .tagged "value" .null)
    ofYaml shaped = .ok node ∧ shaped.JsonShaped ∧
      (∀ i, shaped.Holds (.number (.signed i)) → i < 0) ∧
      (∃ value, shaped.json? = some value ∧ ofJson value = .ok node ∧ value.Canonical) ∧
      (Place.value (.mapping [early, late])).FirstFault (.notFinite .nan) ∧
      (Place.value (.mapping [late, early])).FirstFault (.nonStringKey (.tagged "key" .null)) ∧
      StoredNumber.ofNumeral (.signed (-1)) = .ok (.negative (-1)) := by
  intro shaped node early late
  have hnode : ofYaml shaped = .ok node := rfl
  have hsigned : ∀ i, shaped.Holds (.number (.signed i)) → i < 0 := by
    intro i hi
    dsimp only [shaped] at hi
    cases hi with
    | key hentry hi =>
      simp only [List.mem_cons, Prod.mk.injEq, List.not_mem_nil, or_false] at hentry
      rcases hentry with ⟨rfl, -⟩ | ⟨rfl, -⟩
      · cases hi
      · cases hi
    | value hentry hi =>
      simp only [List.mem_cons, Prod.mk.injEq, List.not_mem_nil, or_false] at hentry
      rcases hentry with ⟨-, rfl⟩ | ⟨-, rfl⟩
      · cases hi
        decide
      · cases hi
  obtain ⟨haccepts, hof, -, hnumber⟩ := ofYaml_accepts_json_shapes shaped
  obtain ⟨value, hjson, hvalue, hcanonical⟩ := hof node hnode
  have hword := hnumber (.signed (-1)) (.value List.mem_cons_self (.here _))
  have hearly := ((ofYaml_accepts_json_shapes (.mapping [early, late])).2.2.1 _).mp rfl
  have hlate := ((ofYaml_accepts_json_shapes (.mapping [late, early])).2.2.1 _).mp rfl
  exact ⟨hnode, haccepts.mp ⟨node, hnode⟩, hsigned, ⟨value, hjson, hvalue, hcanonical hsigned⟩,
    hearly, hlate, hword⟩

end Node

end JsonPatch
