import JsonPatch.Proofs.Number.Stored
import JsonPatch.Proofs.Ordered
import JsonPatch.Proofs.Rereading
import JsonPatch.Proofs.Wire

namespace JsonPatch.Node

/-- The documents that are converted, read or built, their parts, and what patches make of them. -/
inductive Obtainable : Node → Prop where
  | ofJson {value : Json} {node : Node} : ofJson value = .ok node → Obtainable node
  | read {format : Format} {text : String} {node : Node} :
      read format text = .ok node → Obtainable node
  | null : Obtainable null
  | bool (b : Bool) : Obtainable (bool b)
  | number (n : Number) : Obtainable (number n)
  | string (s : String) : Obtainable (string s)
  | array {items : List Node} : (∀ item ∈ items, Obtainable item) → Obtainable (array items)
  | object {members : List (String × Node)} : Members.Ascending members →
      (∀ m ∈ members, Obtainable m.2) → Obtainable (object members)
  | part {document part : Node} {place : Pointer} : Obtainable document →
      document.lookup place = .ok part → Obtainable part
  | applied {document result : Node} {patch : Patch} : Obtainable document → patch.Obtainable →
      (patch.apply document).outcome = .ok result → Obtainable result

/-- By induction on how a document comes about: every way keeps names in order. -/
theorem Obtainable.ordered {node : Node} (h : node.Obtainable) : node.Ordered := by
  induction h with
  | ofJson h => exact ordered_of_ofJson _ h
  | read h => exact ordered_of_read h
  | null => trivial
  | bool b => trivial
  | number n => trivial
  | string s => trivial
  | array _ ih => exact (itemsOrdered_iff _).mpr ih
  | object hascending _ ih => exact ⟨hascending, (membersOrdered_iff _).mpr ih⟩
  | part _ hlookup ih => exact ordered_of_follow ih hlookup
  | applied _ hpatch happly ih =>
    have hvalues := fun operation ho => (hpatch.operations operation ho).2.2
    exact Patch.ordered_apply hvalues ih happly

/-- Names in order are all that a document needs. -/
theorem obtainable_iff_ordered (node : Node) : node.Obtainable ↔ node.Ordered := by
  constructor
  · intro h
    exact h.ordered
  · intro h
    exact .ofJson (ofJson_toJson node h)

/-- Documents and JSON values in canonical form spell each other, numbers held as before, and no
word of a number is refused as out of range or falls back to zero. -/
theorem json_spells_documents :
    (∀ value : Json, value.Canonical → ∃ node, ofJson value = .ok node ∧ node.toJson = value) ∧
    (∀ node : Node, node.Obtainable → node.toJson.Canonical ∧ ofJson node.toJson = .ok node) ∧
    (∀ s : StoredNumber, (s.Reachable ↔ s.IsProper) ∧
      (s.Reachable ↔ ∃ n : Number, n.stored = s)) ∧
    (∀ n : Number, n.stored.toNumeral = n.toNumeral) ∧
    (∀ n : Numeral,
      StoredNumber.ofNumeral n = (Number.stored <$> Number.ofNumeral n).mapError .notFinite) ∧
    (∀ n value : Numeral, StoredNumber.ofNumeral n ≠ .error (.outOfRange value)) ∧
    (∀ d : Double, (StoredNumber.float d).Reachable → (Numeral.ofDouble? d).isSome = true) := by
  refine ⟨toJson_ofJson, ?_, ?_, StoredNumber.toNumeral_stored,
    StoredNumber.ofNumeral_eq_map_stored, StoredNumber.ofNumeral_ne_outOfRange, ?_⟩
  · intro node hnode
    exact ⟨canonical_toJson node hnode.ordered, ofJson_toJson node hnode.ordered⟩
  · intro s
    have hback : s.IsProper → s.Reachable := by
      intro hproper
      obtain ⟨n, rfl⟩ := hproper.exists_stored
      exact StoredNumber.reachable_stored n
    refine ⟨⟨fun h => h.isProper, hback⟩, fun h => h.isProper.exists_stored, ?_⟩
    intro h
    obtain ⟨n, rfl⟩ := h
    exact StoredNumber.reachable_stored n
  · intro d hd
    exact hd.isSome_ofDouble?

/-- An object over an array with a number of each kind. -/
theorem json_spells_documents_with_numbers :
    let numbers : List Json := [.number (.signed (-1)), .number (.unsigned 18446744073709551615),
      .number (.double (.finite ⟨true, 0, by decide⟩))]
    let value : Json := .object [("a", .array numbers), ("b", .null)]
    value.Canonical ∧ ∃ node, ofJson value = .ok node ∧ node.toJson = value ∧
      ofJson node.toJson = .ok node := by
  intro numbers value
  have hnames : Members.Ascending [("a", Json.array numbers), ("b", .null)] :=
    (List.pairwise_map (f := Prod.fst)).mp (show ["a", "b"].Pairwise (· < ·) by decide)
  have hnegative : (-1 : Int64) < 0 := by decide
  have hcanonical : value.Canonical :=
    ⟨hnames, ⟨hnegative, trivial, trivial, trivial⟩, trivial, trivial⟩
  obtain ⟨node, hnode, hvalue⟩ := json_spells_documents.1 value hcanonical
  have hback := json_spells_documents.2.1 node (.ofJson hnode)
  exact ⟨hcanonical, node, hnode, hvalue, hback.2⟩

/-- A document without doubles is read from its JSON text exactly as it was, whatever its strings
and names are, if and only if its containers nest at most 127 deep. -/
theorem ofJsonText_text_of_integers {node : Node} (h : node.Obtainable)
    (hintegers : node.doubles = []) :
    ofJsonText node.text = .ok node ↔ node.depth ≤ 127 := by
  rw [ofJsonText_text_eq_self_iff h.ordered, hintegers]
  have hmax : Json.maxDepth = 127 := rfl
  simp [hmax]

/-- The words at both ends of the two ranges, under names with characters that are escaped. -/
theorem ofJsonText_text_of_extremes :
    let ends : List Node := [number (.integer (-9223372036854775808) (by decide) (by decide)),
      number (.integer 18446744073709551615 (by decide) (by decide))]
    let node : Node := object [("", string "\"\\\x00\t"), ("\n\"", array ends)]
    node.Obtainable ∧ node.doubles = [] ∧ node.depth ≤ 127 ∧ ofJsonText node.text = .ok node := by
  intro ends node
  have hnames : Members.Ascending
      [("", string "\"\\\x00\t"), ("\n\"", array ends)] :=
    (List.pairwise_map (f := Prod.fst)).mp
      (show ["", "\n\""].Pairwise (· < ·) by decide)
  have hobtainable : node.Obtainable :=
    (obtainable_iff_ordered node).mpr ⟨hnames, trivial, ⟨trivial, trivial, trivial⟩, trivial⟩
  have hdepth : node.depth ≤ 127 := by
    show max 0 (max (max 0 (max 0 0) + 1) 0) + 1 ≤ 127
    omega
  exact ⟨hobtainable, rfl, hdepth, (ofJsonText_text_of_integers hobtainable rfl).mpr hdepth⟩

end JsonPatch.Node
