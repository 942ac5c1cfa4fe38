import JsonPatch.Proofs.Wire
import JsonPatch.Sample

namespace JsonPatch

namespace Draw

variable {α β : Type} {p : α → Prop} {q : β → Prop}

/-- Whatever the bytes, the value that is drawn satisfies a condition. -/
def Yields (draw : Draw α) (p : α → Prop) : Prop :=
  ∀ bytes value rest, draw bytes = some (value, rest) → p value

theorem yields_pure {value : α} (h : p value) : (pure value : Draw α).Yields p := by
  intro bytes other rest hdraw
  cases hdraw
  exact h

theorem yields_bind {draw : Draw α} {next : α → Draw β} (hdraw : draw.Yields p)
    (hnext : ∀ value, p value → (next value).Yields q) : (draw >>= next).Yields q := by
  intro bytes value rest h
  change (draw bytes).bind (fun drawn => next drawn.1 drawn.2) = _ at h
  obtain ⟨⟨first, after⟩, hfirst, hlast⟩ := Option.bind_eq_some_iff.mp h
  exact hnext first (hdraw bytes first after hfirst) after value rest hlast

/-- A draw of which nothing is known, before one that does not depend on it. -/
theorem yields_bind_any {draw : Draw α} {next : α → Draw β}
    (hnext : ∀ value, (next value).Yields q) : (draw >>= next).Yields q := by
  have hdraw : draw.Yields fun _ => True := fun _ _ _ _ => trivial
  exact yields_bind hdraw fun value _ => hnext value

theorem yields_lift {option : Option α} (h : ∀ value ∈ option, p value) :
    (liftM option : Draw α).Yields p := by
  intro bytes value rest hdraw
  change option.bind (fun drawn => some (drawn, bytes)) = _ at hdraw
  obtain ⟨drawn, hoption, hvalue⟩ := Option.bind_eq_some_iff.mp hdraw
  cases hvalue
  exact h value hoption

theorem yields_several {draw : Draw α} (h : draw.Yields p) (count : Nat) :
    (several draw count).Yields fun values => ∀ value ∈ values, p value := by
  induction count with
  | zero => exact yields_pure (by simp)
  | succ count ih =>
    refine yields_bind h fun value hvalue => ?_
    refine yields_bind ih fun values hvalues => ?_
    apply yields_pure
    intro other hother
    rcases List.mem_cons.mp hother with rfl | hother
    · exact hvalue
    · exact hvalues other hother

theorem yields_element {items : List α} (h : ∀ item ∈ items, p item) :
    (element items).Yields p := by
  apply yields_bind_any
  intro i
  apply yields_lift
  intro item hitem
  exact h item (List.mem_of_getElem? hitem)

end Draw

namespace Sample

open Draw

theorem leaf_yields : leaf.Yields Node.Ordered := by
  apply yields_bind_any
  intro choice
  split
  · exact yields_pure trivial
  · exact yields_bind_any fun _ => yields_pure trivial
  · exact yields_bind_any fun _ => yields_pure trivial
  · exact yields_bind_any fun _ => yields_pure trivial

/-- By induction on the containers that may stand around the document. -/
theorem document_yields (depth : Nat) : (document depth).Yields Node.Ordered := by
  induction depth with
  | zero => exact leaf_yields
  | succ depth ih =>
    apply yields_bind_any
    intro choice
    split
    · apply yields_bind_any
      intro count
      refine yields_bind (yields_several ih count) fun items hitems => ?_
      exact yields_pure ((Node.itemsOrdered_iff items).mpr hitems)
    · apply yields_bind_any
      intro count
      have hmember : (member (document depth)).Yields fun m => m.2.Ordered :=
        yields_bind_any fun _ => yields_bind ih fun _ hvalue => yields_pure hvalue
      refine yields_bind (yields_several hmember count) fun members hmembers => ?_
      exact yields_pure (Node.ordered_ofList hmembers)
    · exact leaf_yields

end Sample

namespace Node

mutual

/-- Every place in a part that stands at a pointer is a pointer too. -/
theorem obtainable_of_mem_placesFrom {place : Pointer} (hplace : place.Obtainable) :
    (node : Node) → ∀ p ∈ placesFrom place node, p.Obtainable
  | .array items, p, hp => by
    rcases List.mem_cons.mp hp with rfl | hp
    · exact hplace
    · exact obtainable_of_mem_itemPlaces hplace items 0 p hp
  | .object members, p, hp => by
    rcases List.mem_cons.mp hp with rfl | hp
    · exact hplace
    · exact obtainable_of_mem_memberPlaces hplace members p hp
  | .null, p, hp => List.mem_singleton.mp hp ▸ hplace
  | .bool _, p, hp => List.mem_singleton.mp hp ▸ hplace
  | .number _, p, hp => List.mem_singleton.mp hp ▸ hplace
  | .string _, p, hp => List.mem_singleton.mp hp ▸ hplace

theorem obtainable_of_mem_itemPlaces {place : Pointer} (hplace : place.Obtainable) :
    (items : List Node) → ∀ index, ∀ p ∈ itemPlaces place index items, p.Obtainable
  | [], _, p, hp => by cases hp
  | item :: items, index, p, hp => by
    rcases List.mem_append.mp hp with hp | hp
    · cases hchild : place.child (toString index) with
      | error e => simp only [hchild, List.not_mem_nil] at hp
      | ok inner =>
        simp only [hchild] at hp
        exact obtainable_of_mem_placesFrom (.child hplace hchild) item p hp
    · exact obtainable_of_mem_itemPlaces hplace items (index + 1) p hp

theorem obtainable_of_mem_memberPlaces {place : Pointer} (hplace : place.Obtainable) :
    (members : List (String × Node)) → ∀ p ∈ memberPlaces place members, p.Obtainable
  | [], p, hp => by cases hp
  | (name, value) :: members, p, hp => by
    rcases List.mem_append.mp hp with hp | hp
    · cases hchild : place.child name with
      | error e => simp only [hchild, List.not_mem_nil] at hp
      | ok inner =>
        simp only [hchild] at hp
        exact obtainable_of_mem_placesFrom (.child hplace hchild) value p hp
    · exact obtainable_of_mem_memberPlaces hplace members p hp

end

theorem obtainable_of_mem_places {document : Node} : ∀ p ∈ document.places, p.Obtainable :=
  obtainable_of_mem_placesFrom .root document

end Node

namespace Sample

open Draw Operation

variable {places : List Pointer}

theorem mem_toOption {ε α : Type} {x : Except ε α} {value : α} (h : value ∈ x.toOption) :
    x = .ok value := by
  cases x with
  | error e => cases h
  | ok other =>
    cases h
    rfl

theorem pointer_yields (hplaces : ∀ p ∈ places, p.Obtainable) :
    (pointer places).Yields Pointer.Obtainable := by
  apply yields_bind_any
  intro choice
  split
  · refine yields_bind (yields_element hplaces) fun place hplace => ?_
    apply yields_bind_any
    intro way
    split
    · exact yields_lift fun p hp => .child hplace (mem_toOption hp)
    · exact yields_bind_any fun token =>
        yields_lift fun p hp => .child hplace (mem_toOption hp)
    · exact yields_pure hplace
  · apply yields_bind_any
    intro depth
    exact yields_bind_any fun tokens => yields_lift fun p hp => .ofTokens (mem_toOption hp)

theorem operation_yields (hplaces : ∀ p ∈ places, p.Obtainable) :
    (operation places).Yields Operation.Obtainable := by
  apply yields_bind_any
  intro kind
  refine yields_bind (pointer_yields hplaces) fun path hpath => ?_
  cases kind with
  | add =>
    exact yields_bind leaf_yields fun value hvalue =>
      yields_pure ((obtainable_iff _).mpr ⟨hpath, hvalue⟩)
  | remove => exact yields_pure ((obtainable_iff _).mpr hpath)
  | replace =>
    exact yields_bind leaf_yields fun value hvalue =>
      yields_pure ((obtainable_iff _).mpr ⟨hpath, hvalue⟩)
  | move =>
    exact yields_bind (pointer_yields hplaces) fun source hsource =>
      yields_pure ((obtainable_iff _).mpr ⟨hsource, hpath⟩)
  | copy =>
    exact yields_bind (pointer_yields hplaces) fun source hsource =>
      yields_pure ((obtainable_iff _).mpr ⟨hsource, hpath⟩)
  | test =>
    exact yields_bind leaf_yields fun value hvalue =>
      yields_pure ((obtainable_iff _).mpr ⟨hpath, hvalue⟩)

theorem operations_yields (document : Node) :
    (operations document).Yields fun operations => ∀ o ∈ operations, o.Obtainable := by
  apply yields_bind_any
  intro count
  exact yields_several (operation_yields Node.obtainable_of_mem_places) count

end Sample

end JsonPatch
