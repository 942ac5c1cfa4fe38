import JsonPatch.Proofs.Undo
import JsonPatch.Proofs.Walk

namespace JsonPatch

/-- A new element goes to the position that its token spells, or to the end. -/
theorem insertionSlot_eq_some_iff {n : Nat} (hn : n ≤ maxLength) (token : String) (i : Nat) :
    insertionSlot token n = some i ↔ i ≤ n ∧ (token = toString i ∨ token = "-" ∧ i = n) := by
  constructor
  · intro h
    refine ⟨insertionSlot_le h, ?_⟩
    unfold insertionSlot at h
    cases hindex : Pointer.Index.ofToken token with
    | position j =>
      simp only [hindex, Option.ite_none_right_eq_some, Option.some.injEq] at h
      obtain ⟨-, rfl⟩ := h
      exact .inl ((Pointer.Index.ofToken_eq_position_iff token j).mp hindex).1
    | pastEnd =>
      simp only [hindex, Option.some.injEq] at h
      exact .inr ⟨(Pointer.Index.ofToken_eq_pastEnd_iff token).mp hindex, h.symm⟩
    | tooLarge => simp [hindex] at h
    | malformed => simp [hindex] at h
  · rintro ⟨hle, htoken | ⟨rfl, rfl⟩⟩
    · have hindex := (Pointer.Index.ofToken_eq_position_iff token i).mpr ⟨htoken, by omega⟩
      rw [insertionSlot, hindex]
      exact if_pos hle
    · rfl

/-- What stands behind a new element is what stood from its position on. -/
theorem insertIdx_eq_take_drop {α : Type} (value : α) {i : Nat} {items : List α}
    (h : i ≤ items.length) : items.insertIdx i value = items.take i ++ value :: items.drop i := by
  induction items generalizing i with
  | nil =>
    obtain rfl := Nat.le_zero.mp h
    rfl
  | cons item items ih =>
    cases i with
    | zero => rfl
    | succ i =>
      rw [List.insertIdx_succ_cons, ih (Nat.le_of_succ_le_succ h), List.take_succ_cons,
        List.drop_succ_cons, List.cons_append]

namespace Node

/-- Whether a container has a place for a value at a token. -/
def Accepts (token : String) : Node → Prop
  | object _ => True
  | array items => token = "-" ∨ ∃ i ≤ items.length, token = toString i
  | _ => False

/-- Whether a container can do without what a token names. An object can, be it there or not. -/
def Releases (token : String) : Node → Prop
  | object _ => True
  | array items => ∃ i < items.length, token = toString i
  | _ => False

/-- What a container is after a value was put into it at a token. -/
inductive Inserted (token : String) (value : Node) : Node → Node → Prop where
  /-- The member under the token is the value, and all others are kept. -/
  | member {members changed : List (String × Node)} (ascending : Members.Ascending changed)
      (lookup : ∀ name, changed.lookup name =
        if name = token then some value else members.lookup name) :
      Inserted token value (object members) (object changed)
  /-- The elements before the position stay, and those from it on move up by one. -/
  | element {items : List Node} {i : Nat} (fits : i ≤ items.length)
      (names : token = toString i ∨ token = "-" ∧ i = items.length) :
      Inserted token value (array items) (array (items.take i ++ value :: items.drop i))

/-- What a container is after what a token names was dropped from it. -/
inductive Removed (token : String) : Node → Node → Prop where
  /-- No member is under the token, and all others are kept. -/
  | member {members changed : List (String × Node)} (ascending : Members.Ascending changed)
      (lookup : ∀ name, changed.lookup name =
        if name = token then none else members.lookup name) :
      Removed token (object members) (object changed)
  /-- The elements before the position stay, and those behind it move down by one. -/
  | element {items : List Node} {i : Nat} (fits : i < items.length) (names : token = toString i) :
      Removed token (array items) (array (items.take i ++ items.drop (i + 1)))

section Container

variable {token : String} {value container changed : Node}

theorem inserted_member {members : List (String × Node)} (hascending : Members.Ascending members) :
    Inserted token value (object members) (object (Members.insert token value members)) :=
  .member (Members.ascending_insert token value members hascending) fun name =>
    Members.lookup_assign token name (some value) hascending

theorem removed_member {members : List (String × Node)} (hascending : Members.Ascending members) :
    Removed token (object members) (object (Members.erase token members)) :=
  .member (Members.ascending_erase token members hascending) fun name =>
    Members.lookup_assign token name none hascending

/-- Dropping a member that is not there changes nothing. -/
theorem removed_absent {members : List (String × Node)} (hascending : Members.Ascending members)
    (habsent : members.lookup token = none) (h : Removed token (object members) changed) :
    changed = object members := by
  cases h with
  | @member _ changed ascending lookup =>
    have hchanged : changed = Members.erase token members :=
      Members.eq_assign_of_lookup ascending hascending lookup
    rw [hchanged, Members.erase_of_lookup_none habsent]

theorem exists_inserted_iff (hordered : container.Ordered) :
    (∃ changed, Inserted token value container changed) ↔ container.Accepts token := by
  constructor
  · rintro ⟨changed, h⟩
    cases h with
    | member => trivial
    | element fits names =>
      rcases names with hname | ⟨hdash, -⟩
      · exact .inr ⟨_, fits, hname⟩
      · exact .inl hdash
  · intro h
    cases container with
    | object members => exact ⟨_, inserted_member hordered.1⟩
    | array items =>
      rcases h with hdash | ⟨i, hle, hname⟩
      · exact ⟨_, .element (Nat.le_refl _) (.inr ⟨hdash, rfl⟩)⟩
      · exact ⟨_, .element hle (.inl hname)⟩
    | _ => exact h.elim

theorem exists_removed_iff (hordered : container.Ordered) :
    (∃ changed, Removed token container changed) ↔ container.Releases token := by
  constructor
  · rintro ⟨changed, h⟩
    cases h with
    | member => trivial
    | element fits names => exact ⟨_, fits, names⟩
  · intro h
    cases container with
    | object members => exact ⟨_, removed_member hordered.1⟩
    | array items =>
      obtain ⟨i, hlt, hname⟩ := h
      exact ⟨_, .element hlt hname⟩
    | _ => exact h.elim

variable (hordered : container.Ordered)
  (hlength : ∀ items, container = array items → items.length ≤ maxLength)
include hordered hlength

/-- An insertion succeeds with what `Inserted` tells, and with nothing else. -/
theorem insertChild_eq_ok_iff_inserted (raw : String) :
    (insertChild raw value container token).outcome = .ok changed ↔
      Inserted token value container changed := by
  rw [insertChild_eq_ok_iff]
  constructor
  · rintro (⟨members, rfl, rfl⟩ | ⟨items, i, rfl, hslot, rfl⟩)
    · exact inserted_member hordered.1
    · obtain ⟨hle, hname⟩ := (insertionSlot_eq_some_iff (hlength items rfl) token i).mp hslot
      rw [insertIdx_eq_take_drop value hle]
      exact .element hle hname
  · intro h
    cases h with
    | @member members changed ascending lookup =>
      have hchanged : changed = Members.insert token value members :=
        Members.eq_assign_of_lookup ascending hordered.1 lookup
      exact .inl ⟨members, rfl, congrArg object hchanged⟩
    | @element items i fits names =>
      refine .inr ⟨items, i, rfl, ?_, ?_⟩
      · exact (insertionSlot_eq_some_iff (hlength items rfl) token i).mpr ⟨fits, names⟩
      · rw [insertIdx_eq_take_drop value fits]

/-- A removal succeeds with what `Removed` tells, and with nothing else. -/
theorem removeChild_eq_ok_iff_removed (raw : String) :
    (removeChild raw container token).outcome = .ok changed ↔ Removed token container changed := by
  rw [removeChild_eq_ok_iff]
  constructor
  · rintro (⟨members, rfl, rfl⟩ | ⟨items, i, rfl, hindex, hlt, rfl⟩)
    · exact removed_member hordered.1
    · rw [List.eraseIdx_eq_take_drop_succ]
      exact .element hlt ((Pointer.Index.ofToken_eq_position_iff token i).mp hindex).1
  · intro h
    cases h with
    | @member members changed ascending lookup =>
      have hchanged : changed = Members.erase token members :=
        Members.eq_assign_of_lookup ascending hordered.1 lookup
      exact .inl ⟨members, rfl, congrArg object hchanged⟩
    | @element items i fits names =>
      have hword : i ≤ maxLength := Nat.le_trans (Nat.le_of_lt fits) (hlength items rfl)
      refine .inr ⟨items, i, rfl, ?_, fits, ?_⟩
      · exact (Pointer.Index.ofToken_eq_position_iff token i).mpr ⟨names, hword⟩
      · rw [List.eraseIdx_eq_take_drop_succ]

end Container

section Operation

variable {document : Node} {p : Pointer} {change : Change} {outcome : Except LocationError Node}
  (hordered : document.Ordered) (becomes : String → Node → Node → Prop)
  (hbelow : ∀ place last, p.tokens = place ++ [last] →
    outcome = edit p.raw change place last document)
  (hbecomes : ∀ container token changed, document.container p = .ok container →
    container.Ordered → ((change container token).outcome = .ok changed ↔
      becomes token container changed))
include hordered hbelow hbecomes

/-- An operation that works on the root and edits below it succeeds exactly at the root and where
the parent leads to a container that can be changed. -/
theorem succeeds_iff (works : String → Node → Prop)
    (hroot : p.tokens = [] → ∃ result, outcome = .ok result)
    (hworks : ∀ token container, container.Ordered →
      ((∃ changed, becomes token container changed) ↔ works token container)) :
    (∃ result, outcome = .ok result) ↔
      p.isRoot = true ∨ ∃ parent last container, p.parent? = some parent ∧
        p.last? = some last ∧ document.lookup parent = .ok container ∧ works last container := by
  rcases tokens_cases p with hempty | ⟨place, last, hplace⟩
  · exact ⟨fun _ => .inl (List.isEmpty_iff.mpr hempty), fun _ => hroot hempty⟩
  · simp only [container_of_concat hplace] at hbecomes
    simp only [hbelow place last hplace, isRoot_of_concat hplace, parent?_of_concat hplace,
      last?_of_concat hplace, Bool.false_eq_true, false_or, edit_eq_ok_iff]
    constructor
    · rintro ⟨_, container, changed, hcontainer, hchanged, -⟩
      have hkept := ordered_of_follow hordered hcontainer
      have hbecome := (hbecomes container last changed hcontainer hkept).mp hchanged
      exact ⟨.spell place, last, container, rfl, rfl, follow_raw _ hcontainer,
        (hworks last container hkept).mp ⟨changed, hbecome⟩⟩
    · rintro ⟨_, _, container, hparent, hlast, hfound, hcan⟩
      cases hparent
      cases hlast
      have hcontainer := follow_raw p.raw hfound
      have hkept := ordered_of_follow hordered hcontainer
      obtain ⟨changed, hbecome⟩ := (hworks last container hkept).mpr hcan
      exact ⟨_, container, changed, hcontainer,
        (hbecomes container last changed hcontainer hkept).mpr hbecome, rfl⟩

/-- Below the root it puts the changed container where the parent leads, and keeps all else. -/
theorem replacedAt_of_ok {result : Node} (h : outcome = .ok result) {parent : Pointer}
    {last : String} (hparent : p.parent? = some parent) (hlast : p.last? = some last) :
    ∃ container changed, document.lookup parent = .ok container ∧
      becomes last container changed ∧ ReplacedAt parent changed document result := by
  rcases tokens_cases p with hempty | ⟨place, token, hplace⟩
  · simp [Pointer.parent?, hempty] at hparent
  · rw [hbelow place token hplace] at h
    obtain ⟨container, changed, hcontainer, hchanged, rfl⟩ := (edit_eq_ok_iff ..).mp h
    rw [parent?_of_concat hplace] at hparent
    rw [last?_of_concat hplace] at hlast
    cases hparent
    cases hlast
    have hfound : document.lookup (.spell place) = .ok container := follow_raw _ hcontainer
    have hkept := ordered_of_follow hordered hcontainer
    rw [← container_of_concat hplace] at hcontainer
    exact ⟨container, changed, hfound, (hbecomes _ _ _ hcontainer hkept).mp hchanged,
      replacedAt_graft hordered hfound changed⟩

end Operation

/-- What an addition asks for, and what it makes: the value in the container, where it is found, and
all around the container kept. -/
theorem add_effect (document value : Node) (p : Pointer) (hordered : document.Ordered)
    (hlength : ∀ items, document.container p = .ok (array items) → items.length ≤ maxLength) :
    ((∃ result, (document.add p value).outcome = .ok result) ↔
      p.isRoot = true ∨ ∃ parent last container, p.parent? = some parent ∧ p.last? = some last ∧
        document.lookup parent = .ok container ∧ container.Accepts last) ∧
    ∀ result, (document.add p value).outcome = .ok result →
      (p.isRoot = true → result = value) ∧
      (∀ parent last, p.parent? = some parent → p.last? = some last →
        ∃ container changed, document.lookup parent = .ok container ∧
          Inserted last value container changed ∧ ReplacedAt parent changed document result) ∧
      ∀ q : Pointer, q.tokens = document.settle p → result.lookup q = .ok value := by
  have hbelow (place : List String) (last : String) (hplace : p.tokens = place ++ [last]) :=
    add_outcome hplace document value
  have hbecomes (container : Node) (token : String) (changed : Node)
      (hcontainer : document.container p = .ok container) (hkept : container.Ordered) :
      (insertChild p.raw value container token).outcome = .ok changed ↔
        Inserted token value container changed := by
    refine insertChild_eq_ok_iff_inserted hkept ?_ p.raw
    rintro items rfl
    exact hlength items hcontainer
  constructor
  · exact succeeds_iff hordered (Inserted · value) hbelow hbecomes Accepts
      (fun hempty => ⟨value, add_outcome_root hempty document value⟩)
      fun _ _ hkept => exists_inserted_iff hkept
  · intro result hresult
    refine ⟨?_, ?_, fun q hq => lookup_add hresult hlength hq⟩
    · intro hroot
      rw [add_outcome_root (List.isEmpty_iff.mp hroot)] at hresult
      exact (Except.ok.inj hresult).symm
    · intro parent last hparent hlast
      exact replacedAt_of_ok hordered (Inserted · value) hbelow hbecomes hresult hparent hlast

/-- A value added at the end of an array settles behind its last element. -/
theorem add_effect_at_end :
    let document := object [("a", array [null, bool true])]
    let result := object [("a", array [null, bool true, array []])]
    let path : Pointer := ⟨"/a/-", ["a", "-"]⟩
    let parent : Pointer := .spell ["a"]
    document.Ordered ∧
    (∀ items, document.container path = .ok (array items) → items.length ≤ maxLength) ∧
    (document.add path (array [])).outcome = .ok result ∧
    (∃ container changed, document.lookup parent = .ok container ∧
      Inserted "-" (array []) container changed ∧ ReplacedAt parent changed document result) ∧
    result.lookup ⟨"/a/2", ["a", "2"]⟩ = .ok (array []) := by
  intro document result path parent
  have hordered : document.Ordered :=
    ⟨List.pairwise_singleton _ _, ⟨trivial, trivial, trivial⟩, trivial⟩
  have hlength (items : List Node) (h : document.container path = .ok (array items)) :
      items.length ≤ maxLength := by
    cases h
    decide
  have hadd : (document.add path (array [])).outcome = .ok result := rfl
  have heffect := (add_effect document (array []) path hordered hlength).2 result hadd
  exact ⟨hordered, hlength, hadd, heffect.2.1 parent "-" rfl rfl, heffect.2.2 _ rfl⟩

/-- What a removal asks for, and what it makes: the container without the member or the element, and
all around it kept, or the document as it is. -/
theorem remove_effect (document : Node) (p : Pointer) (hordered : document.Ordered)
    (hlength : ∀ items, document.container p = .ok (array items) → items.length ≤ maxLength) :
    ((∃ result, (document.remove p).outcome = .ok result) ↔
      p.isRoot = true ∨ ∃ parent last container, p.parent? = some parent ∧ p.last? = some last ∧
        document.lookup parent = .ok container ∧ container.Releases last) ∧
    ∀ result, (document.remove p).outcome = .ok result →
      (p.isRoot = true → result = document) ∧
      ∀ parent last, p.parent? = some parent → p.last? = some last →
        (∀ members, document.lookup parent = .ok (object members) →
          members.lookup last = none → result = document) ∧
        ∃ container changed, document.lookup parent = .ok container ∧
          Removed last container changed ∧ ReplacedAt parent changed document result := by
  have hbelow (place : List String) (last : String) (hplace : p.tokens = place ++ [last]) :=
    remove_outcome hplace document
  have hbecomes (container : Node) (token : String) (changed : Node)
      (hcontainer : document.container p = .ok container) (hkept : container.Ordered) :
      (removeChild p.raw container token).outcome = .ok changed ↔
        Removed token container changed := by
    refine removeChild_eq_ok_iff_removed hkept ?_ p.raw
    rintro items rfl
    exact hlength items hcontainer
  constructor
  · exact succeeds_iff hordered Removed hbelow hbecomes Releases
      (fun hempty => ⟨document, remove_outcome_root hempty document⟩)
      fun _ _ hkept => exists_removed_iff hkept
  · intro result hresult
    constructor
    · intro hroot
      rw [remove_outcome_root (List.isEmpty_iff.mp hroot)] at hresult
      exact (Except.ok.inj hresult).symm
    · intro parent last hparent hlast
      obtain ⟨container, changed, hfound, hremoved, hreplaced⟩ :=
        replacedAt_of_ok hordered Removed hbelow hbecomes hresult hparent hlast
      refine ⟨?_, container, changed, hfound, hremoved, hreplaced⟩
      intro members hmembers habsent
      rw [hmembers] at hfound
      cases hfound
      rw [removed_absent (ordered_of_follow hordered hmembers).1 habsent hremoved] at hreplaced
      exact hreplaced.unchanged hmembers

/-- An element removed from an array, and a member that is not there from an object inside it. -/
theorem remove_effect_of_element :
    let document := array [object [("a", null)], bool true]
    let element : Pointer := ⟨"/0", ["0"]⟩
    let absent : Pointer := ⟨"/0/b", ["0", "b"]⟩
    document.Ordered ∧
    (∀ items, document.container element = .ok (array items) → items.length ≤ maxLength) ∧
    (document.remove element).outcome = .ok (array [bool true]) ∧
    (∃ container changed, document.lookup (.spell []) = .ok container ∧
      Removed "0" container changed ∧
      ReplacedAt (.spell []) changed document (array [bool true])) ∧
    (∀ items, document.container absent = .ok (array items) → items.length ≤ maxLength) ∧
    ∀ result, (document.remove absent).outcome = .ok result → result = document := by
  intro document element absent
  have hordered : document.Ordered :=
    ⟨⟨List.pairwise_singleton _ _, trivial, trivial⟩, trivial, trivial⟩
  have helement (items : List Node) (h : document.container element = .ok (array items)) :
      items.length ≤ maxLength := by
    have hitems : [object [("a", null)], bool true] = items := array.inj (Except.ok.inj h)
    rw [← hitems]
    decide
  have habsent (items : List Node) (h : document.container absent = .ok (array items)) :
      items.length ≤ maxLength := by cases h
  have hremove : (document.remove element).outcome = .ok (array [bool true]) := rfl
  have hfirst := (remove_effect document element hordered helement).2 _ hremove
  refine ⟨hordered, helement, hremove, (hfirst.2 (.spell []) "0" rfl rfl).2, habsent, ?_⟩
  intro result hresult
  have hsecond := (remove_effect document absent hordered habsent).2 result hresult
  exact (hsecond.2 (.spell ["0"]) "b" rfl rfl).1 [("a", null)] rfl rfl

end Node

end JsonPatch
