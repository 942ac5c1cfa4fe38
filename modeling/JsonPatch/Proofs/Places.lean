import JsonPatch.Proofs.Descent
import JsonPatch.Proofs.Pointer.Spelling

namespace JsonPatch

namespace Pointer

theorem child_spell {place : List String} (hplace : ∀ token ∈ place, token ≠ "") {token : String}
    (htoken : token ≠ "") : (spell place).child token = .ok (spell (place ++ [token])) :=
  (child_eq_ok_iff _ _ token).mpr ⟨hplace, htoken, rfl⟩

theorem child_empty (p : Pointer) : ∃ e, p.child "" = .error e := by
  cases h : p.child "" with
  | error e => exact ⟨e, rfl⟩
  | ok inner =>
    obtain ⟨-, hne, -⟩ := (child_eq_ok_iff p inner "").mp h
    exact absurd rfl hne

end Pointer

namespace Node

/-- A part directly inside a node, with its token: an element with its position, a member with its
name. -/
inductive PartAt : Node → String → Node → Prop where
  | element {items : List Node} {i : Nat} {item : Node} : items[i]? = some item →
      PartAt (array items) (toString i) item
  | member {members : List (String × Node)} {name : String} {value : Node} :
      (name, value) ∈ members → PartAt (object members) name value

/-- A part of a document with the path from the root to it. -/
inductive At : Node → List String → Node → Prop where
  | here (node : Node) : At node [] node
  | inside {node part inner : Node} {token : String} {tokens : List String} :
      PartAt node token part → At part tokens inner → At node (token :: tokens) inner

/-- Depth-first order of paths in a document: a container comes before what is in it, the elements
of an array come by position and the members of an object by name. -/
inductive Before : Node → List String → List String → Prop where
  | container {node : Node} {token : String} {tokens : List String} :
      Before node [] (token :: tokens)
  | elements {items : List Node} {i j : Nat} {p q : List String} : i < j →
      Before (array items) (toString i :: p) (toString j :: q)
  | members {members : List (String × Node)} {first second : String} {p q : List String} :
      first < second → Before (object members) (first :: p) (second :: q)
  | inside {node part : Node} {token : String} {p q : List String} : PartAt node token part →
      Before part p q → Before node (token :: p) (token :: q)

theorem Before.ne {node : Node} {p q : List String} (h : Before node p q) : p ≠ q := by
  induction h with
  | container => simp
  | elements hlt =>
    intro heq
    have hsame := Pointer.toString_inj (List.cons.inj heq).1
    omega
  | members hlt => exact fun heq => String.ne_of_lt hlt (List.cons.inj heq).1
  | inside _ _ ih => exact fun heq => ih (List.cons.inj heq).2

/-- Whether every array in a document has a length below 2⁶⁴. -/
def ArraysFit (document : Node) : Prop :=
  ∀ tokens items, At document tokens (array items) → items.length < 2 ^ 64

theorem ArraysFit.part {node part : Node} {token : String} (h : node.ArraysFit)
    (hpart : PartAt node token part) : part.ArraysFit :=
  fun tokens items hitems => h (token :: tokens) items (.inside hpart hitems)

theorem arraysFit_of_parts {node : Node}
    (hlength : ∀ items, node = array items → items.length < 2 ^ 64)
    (hparts : ∀ token part, PartAt node token part → part.ArraysFit) : node.ArraysFit := by
  intro tokens items hitems
  cases hitems with
  | here => exact hlength items rfl
  | inside hpart hrest => exact hparts _ _ hpart _ items hrest

theorem arraysFit_scalar {node : Node} (h : node.IsScalar) : node.ArraysFit := by
  apply arraysFit_of_parts
  · intro items hnode
    subst hnode
    exact h.elim
  · intro token part hpart
    cases hpart with
    | element _ => exact h.elim
    | member _ => exact h.elim

theorem arraysFit_array {items : List Node} (hlength : items.length < 2 ^ 64)
    (hitems : ∀ item ∈ items, item.ArraysFit) : (array items).ArraysFit := by
  apply arraysFit_of_parts
  · intro _ hnode
    cases hnode
    exact hlength
  · intro token part hpart
    cases hpart with
    | element hi => exact hitems part (List.mem_of_getElem? hi)

theorem arraysFit_object {members : List (String × Node)}
    (hmembers : ∀ m ∈ members, m.2.ArraysFit) : (object members).ArraysFit := by
  apply arraysFit_of_parts
  · intro _ hnode
    cases hnode
  · intro token part hpart
    cases hpart with
    | member hmem => exact hmembers _ hmem

/-- A token leads to the parts that bear it, if the names of members ascend and positions fit a
64-bit word. -/
theorem part?_eq_some_iff {node : Node} (hordered : node.Ordered) (hfit : node.ArraysFit)
    (token : String) (part : Node) : part? token node = some part ↔ PartAt node token part := by
  constructor
  · intro h
    rcases part?_cases h with ⟨members, rfl, hp⟩ | ⟨items, i, rfl, hi, hp⟩
    · exact .member (mem_of_lookup hp)
    · obtain ⟨rfl, -⟩ := (Pointer.Index.ofToken_eq_position_iff token i).mp hi
      exact .element hp
  · intro h
    cases h with
    | @element items i _ hi =>
      obtain ⟨hlt, -⟩ := List.getElem?_eq_some_iff.mp hi
      have hlength := hfit [] items (.here _)
      have hle : i ≤ maxLength := (le_maxLength_iff i).mpr (Nat.lt_trans hlt hlength)
      simp only [part?, (Pointer.Index.ofToken_eq_position_iff _ i).mpr ⟨rfl, hle⟩, hi]
    | member hmem => exact Members.lookup_of_mem hordered.1 hmem

theorem follow_eq_ok_iff (raw : String) (tokens : List String) {node : Node}
    (hordered : node.Ordered) (hfit : node.ArraysFit) (part : Node) :
    follow raw tokens node = .ok part ↔ At node tokens part := by
  induction tokens generalizing node with
  | nil =>
    constructor
    · intro h
      cases h
      exact .here _
    · intro h
      cases h
      rfl
  | cons token tokens ih =>
    rw [follow_cons_eq_ok_iff]
    constructor
    · intro h
      obtain ⟨next, hnext, hrest⟩ := h
      have hpart := (part?_eq_some_iff hordered hfit token next).mp hnext
      exact .inside hpart
        ((ih (ordered_of_part hordered hnext) (hfit.part hpart)).mp hrest)
    · intro h
      cases h with
      | @inside _ next _ _ _ hpart hrest =>
        have hnext := (part?_eq_some_iff hordered hfit token next).mpr hpart
        exact ⟨next, hnext, (ih (ordered_of_part hordered hnext) (hfit.part hpart)).mpr hrest⟩

mutual

/-- The paths from a node to the parts below it, those through empty names left out. -/
def paths : Node → List (List String)
  | array items => [] :: itemPaths 0 items
  | object members => [] :: memberPaths members
  | _ => [[]]

/-- `paths` for the elements of an array from an index on. -/
def itemPaths (index : Nat) : List Node → List (List String)
  | [] => []
  | item :: items => (paths item).map (toString index :: ·) ++ itemPaths (index + 1) items

def memberPaths : List (String × Node) → List (List String)
  | [] => []
  | (name, value) :: members =>
    (if name = "" then [] else (paths value).map (name :: ·)) ++ memberPaths members

end

mutual

/-- The places in a part are the paths in it, each behind the place of the part. -/
theorem placesFrom_spell {place : List String} (hplace : ∀ token ∈ place, token ≠ "") :
    (node : Node) →
      placesFrom (.spell place) node = node.paths.map fun path => .spell (place ++ path)
  | .array items => by
    simp only [placesFrom, paths, List.map_cons, List.append_nil, itemPlaces_spell hplace 0 items]
  | .object members => by
    simp only [placesFrom, paths, List.map_cons, List.append_nil, memberPlaces_spell hplace members]
  | .null => by simp [placesFrom, paths]
  | .bool _ => by simp [placesFrom, paths]
  | .number _ => by simp [placesFrom, paths]
  | .string _ => by simp [placesFrom, paths]

theorem itemPlaces_spell {place : List String} (hplace : ∀ token ∈ place, token ≠ "")
    (index : Nat) : (items : List Node) →
      itemPlaces (.spell place) index items =
        (itemPaths index items).map fun path => .spell (place ++ path)
  | [] => rfl
  | item :: items => by
    have hchild := Pointer.child_spell hplace (Pointer.toString_ne_empty index)
    have hinner := Pointer.concat_ne_empty hplace (Pointer.toString_ne_empty index)
    simp only [itemPlaces, itemPaths, hchild, placesFrom_spell hinner item,
      itemPlaces_spell hplace (index + 1) items, List.map_append, List.map_map,
      Function.comp_def, List.append_assoc, List.singleton_append]

theorem memberPlaces_spell {place : List String} (hplace : ∀ token ∈ place, token ≠ "") :
    (members : List (String × Node)) →
      memberPlaces (.spell place) members =
        (memberPaths members).map fun path => .spell (place ++ path)
  | [] => rfl
  | (name, value) :: members => by
    by_cases hname : name = ""
    · obtain ⟨e, he⟩ := Pointer.child_empty (.spell place)
      subst hname
      simp only [memberPlaces, memberPaths, he, if_true, List.nil_append,
        memberPlaces_spell hplace members]
    · have hchild := Pointer.child_spell hplace hname
      have hinner := Pointer.concat_ne_empty hplace hname
      simp only [memberPlaces, memberPaths, hchild, if_neg hname, placesFrom_spell hinner value,
        memberPlaces_spell hplace members, List.map_append, List.map_map, Function.comp_def,
        List.append_assoc, List.singleton_append]

end

theorem places_eq (document : Node) : document.places = document.paths.map .spell := by
  have hroot : ∀ token ∈ ([] : List String), token ≠ "" := List.forall_mem_nil _
  exact placesFrom_spell hroot document

theorem nil_mem_paths (node : Node) : [] ∈ node.paths := by
  cases node <;> simp [paths]

theorem mem_itemPaths (index : Nat) (items : List Node) (path : List String) :
    path ∈ itemPaths index items ↔
      ∃ i item inner, items[i]? = some item ∧ inner ∈ item.paths ∧
        path = toString (index + i) :: inner := by
  induction items generalizing index with
  | nil => simp [itemPaths]
  | cons item items ih =>
    have hnext (i : Nat) : index + 1 + i = index + (i + 1) := by omega
    simp only [itemPaths, List.mem_append, List.mem_map, ih, hnext]
    constructor
    · intro h
      rcases h with ⟨inner, hinner, rfl⟩ | ⟨i, next, inner, hi, hinner, rfl⟩
      · exact ⟨0, item, inner, rfl, hinner, rfl⟩
      · exact ⟨i + 1, next, inner, hi, hinner, rfl⟩
    · intro h
      obtain ⟨i, next, inner, hi, hinner, rfl⟩ := h
      cases i with
      | zero =>
        cases hi
        exact .inl ⟨inner, hinner, rfl⟩
      | succ i => exact .inr ⟨i, next, inner, hi, hinner, rfl⟩

theorem mem_memberPaths (members : List (String × Node)) (path : List String) :
    path ∈ memberPaths members ↔
      ∃ name value inner, (name, value) ∈ members ∧ name ≠ "" ∧ inner ∈ value.paths ∧
        path = name :: inner := by
  induction members with
  | nil => simp [memberPaths]
  | cons member members ih =>
    obtain ⟨name, value⟩ := member
    rw [memberPaths, List.mem_append, ih]
    constructor
    · intro h
      rcases h with h | ⟨other, next, inner, hmem, hother, hinner, rfl⟩
      · by_cases hname : name = ""
        · simp [hname] at h
        · rw [if_neg hname] at h
          obtain ⟨inner, hinner, rfl⟩ := List.mem_map.mp h
          exact ⟨name, value, inner, List.mem_cons_self, hname, hinner, rfl⟩
      · exact ⟨other, next, inner, List.mem_cons_of_mem _ hmem, hother, hinner, rfl⟩
    · intro h
      obtain ⟨other, next, inner, hmem, hother, hinner, rfl⟩ := h
      rcases List.mem_cons.mp hmem with heq | hmem
      · cases heq
        rw [if_neg hother]
        exact .inl (List.mem_map_of_mem hinner)
      · exact .inr ⟨other, next, inner, hmem, hother, hinner, rfl⟩

/-- The first step of a path leads to a part, the others are a path in that part. -/
theorem cons_mem_paths (node : Node) (token : String) (tokens : List String) :
    token :: tokens ∈ node.paths ↔
      token ≠ "" ∧ ∃ part, PartAt node token part ∧ tokens ∈ part.paths := by
  cases node with
  | array items =>
    rw [paths, List.mem_cons, mem_itemPaths]
    constructor
    · intro h
      rcases h with h | ⟨i, item, inner, hi, hinner, h⟩
      · cases h
      · obtain ⟨rfl, rfl⟩ := List.cons.inj h
        rw [Nat.zero_add]
        exact ⟨Pointer.toString_ne_empty i, item, .element hi, hinner⟩
    · intro h
      obtain ⟨-, part, hpart, htokens⟩ := h
      cases hpart with
      | @element _ i _ hi =>
        exact .inr ⟨i, part, tokens, hi, htokens, by rw [Nat.zero_add]⟩
  | object members =>
    rw [paths, List.mem_cons, mem_memberPaths]
    constructor
    · intro h
      rcases h with h | ⟨name, value, inner, hmem, hname, hinner, h⟩
      · cases h
      · obtain ⟨rfl, rfl⟩ := List.cons.inj h
        exact ⟨hname, value, .member hmem, hinner⟩
    · intro h
      obtain ⟨hname, part, hpart, htokens⟩ := h
      cases hpart with
      | member hmem => exact .inr ⟨token, part, tokens, hmem, hname, htokens, rfl⟩
  | _ =>
    constructor
    · intro h
      simp [paths] at h
    · intro h
      obtain ⟨-, part, hpart, -⟩ := h
      cases hpart

/-- The paths are those that lead to a part, without empty names. -/
theorem mem_paths_iff (node : Node) (tokens : List String) :
    tokens ∈ node.paths ↔ (∃ part, At node tokens part) ∧ "" ∉ tokens := by
  -- By induction on the path: the node below each token is another one.
  induction tokens generalizing node with
  | nil => exact ⟨fun _ => ⟨⟨node, .here node⟩, List.not_mem_nil⟩, fun _ => nil_mem_paths node⟩
  | cons token tokens ih =>
    rw [cons_mem_paths, List.mem_cons, not_or]
    constructor
    · intro h
      obtain ⟨htoken, part, hpart, htokens⟩ := h
      obtain ⟨⟨inner, hinner⟩, hfull⟩ := (ih part).mp htokens
      exact ⟨⟨inner, .inside hpart hinner⟩, htoken.symm, hfull⟩
    · intro h
      obtain ⟨⟨inner, hinner⟩, htoken, hfull⟩ := h
      cases hinner with
      | @inside _ part _ _ _ hpart hrest =>
        exact ⟨Ne.symm htoken, part, hpart, (ih part).mpr ⟨⟨inner, hrest⟩, hfull⟩⟩

mutual

/-- Paths come in depth-first order. -/
theorem paths_before : (node : Node) → node.Ordered → node.paths.Pairwise (Before node)
  | .array items, h => by
    rw [paths, List.pairwise_cons]
    have hall (i : Nat) : items[0 + i]? = items[i]? := by rw [Nat.zero_add]
    refine ⟨?_, itemPaths_before items 0 items h hall⟩
    intro path hpath
    obtain ⟨i, item, inner, -, -, rfl⟩ := (mem_itemPaths 0 items path).mp hpath
    exact .container
  | .object members, h => by
    rw [paths, List.pairwise_cons]
    refine ⟨?_, memberPaths_before members members h.1 h.2 fun _ hm => hm⟩
    intro path hpath
    obtain ⟨name, value, inner, -, -, -, rfl⟩ := (mem_memberPaths members path).mp hpath
    exact .container
  | .null, _ => List.pairwise_singleton _ _
  | .bool _, _ => List.pairwise_singleton _ _
  | .number _, _ => List.pairwise_singleton _ _
  | .string _, _ => List.pairwise_singleton _ _

/-- `paths_before` for the elements of a whole array from an index on. -/
theorem itemPaths_before (all : List Node) (index : Nat) : (items : List Node) →
    ItemsOrdered items → (∀ i : Nat, all[index + i]? = items[i]?) →
    (itemPaths index items).Pairwise (Before (array all))
  | [], _, _ => List.Pairwise.nil
  | item :: items, h, hall => by
    have hitem : PartAt (array all) (toString index) item := .element (hall 0)
    have hrest (i : Nat) : all[index + 1 + i]? = items[i]? := by
      rw [Nat.add_right_comm, Nat.add_assoc]
      exact hall (i + 1)
    have htail := itemPaths_before all (index + 1) items h.2 hrest
    rw [itemPaths, List.pairwise_append, List.pairwise_map]
    refine ⟨(paths_before item h.1).imp fun hbefore => .inside hitem hbefore, htail, ?_⟩
    · intro first hfirst second hsecond
      obtain ⟨inner, -, rfl⟩ := List.mem_map.mp hfirst
      obtain ⟨i, next, rest, -, -, rfl⟩ := (mem_itemPaths (index + 1) items second).mp hsecond
      exact .elements (by omega)

theorem memberPaths_before (all : List (String × Node)) : (members : List (String × Node)) →
    Members.Ascending members → MembersOrdered members → (∀ m ∈ members, m ∈ all) →
    (memberPaths members).Pairwise (Before (object all))
  | [], _, _, _ => List.Pairwise.nil
  | (name, value) :: members, hnames, h, hall => by
    obtain ⟨hfirst, hrest⟩ := (Members.ascending_cons (name, value) members).mp hnames
    have hvalue : PartAt (object all) name value := .member (hall _ List.mem_cons_self)
    have htail := memberPaths_before all members hrest h.2 fun m hm =>
      hall m (List.mem_cons_of_mem _ hm)
    rw [memberPaths, List.pairwise_append]
    refine ⟨?_, htail, ?_⟩
    · split
      · exact List.Pairwise.nil
      · exact List.pairwise_map.mpr
          ((paths_before value h.1).imp fun hbefore => .inside hvalue hbefore)
    · intro first hmem second hsecond
      obtain ⟨other, next, rest, hother, -, -, rfl⟩ := (mem_memberPaths members second).mp hsecond
      split at hmem
      · cases hmem
      · obtain ⟨inner, -, rfl⟩ := List.mem_map.mp hmem
        exact .members (hfirst _ hother)

end

theorem mem_places_iff (document : Node) (p : Pointer) :
    p ∈ document.places ↔
      ∃ tokens part, At document tokens part ∧ "" ∉ tokens ∧ p = .spell tokens := by
  rw [places_eq, List.mem_map]
  constructor
  · intro h
    obtain ⟨tokens, htokens, rfl⟩ := h
    obtain ⟨⟨part, hpart⟩, hfull⟩ := (mem_paths_iff document tokens).mp htokens
    exact ⟨tokens, part, hpart, hfull, rfl⟩
  · intro h
    obtain ⟨tokens, part, hpart, hfull, rfl⟩ := h
    exact ⟨tokens, (mem_paths_iff document tokens).mpr ⟨⟨part, hpart⟩, hfull⟩, rfl⟩

theorem places_before {document : Node} (hordered : document.Ordered) :
    document.places.Pairwise fun p q => Before document p.tokens q.tokens := by
  rw [places_eq, List.pairwise_map]
  exact paths_before document hordered

/-- A pointer without empty tokens equals a place exactly when it leads to a part. -/
theorem exists_same_place_iff {document : Node} (hordered : document.Ordered)
    (hfit : document.ArraysFit) {q : Pointer} (hq : "" ∉ q.tokens) :
    (∃ p ∈ document.places, p.same q = true) ↔ ∃ part, document.lookup q = .ok part := by
  simp only [lookup, follow_eq_ok_iff q.raw q.tokens hordered hfit, Pointer.same, beq_iff_eq]
  constructor
  · intro h
    obtain ⟨p, hp, hsame⟩ := h
    obtain ⟨tokens, part, hpart, -, rfl⟩ := (mem_places_iff document p).mp hp
    exact ⟨part, hsame ▸ hpart⟩
  · intro h
    obtain ⟨part, hpart⟩ := h
    exact ⟨.spell q.tokens, (mem_places_iff document _).mpr ⟨q.tokens, part, hpart, hq, rfl⟩, rfl⟩

/-- The places in a document are those of the parts whose path has no empty token, each once, in
depth-first order, and a pointer equals one of them exactly when it leads to a part. -/
theorem places_are_addressable (document : Node) (hordered : document.Ordered)
    (hfit : document.ArraysFit) :
    (∀ q : Pointer, q.Obtainable →
      ((∃ p ∈ document.places, p.same q = true) ↔ ∃ part, document.lookup q = .ok part)) ∧
    (document.places.Pairwise fun p q => p.same q = false) ∧
    (∀ p : Pointer, p ∈ document.places ↔
      ∃ tokens part, At document tokens part ∧ "" ∉ tokens ∧ p = .spell tokens) ∧
    document.places.Pairwise fun p q => Before document p.tokens q.tokens := by
  have hbefore := places_before hordered
  refine ⟨?_, ?_, mem_places_iff document, hbefore⟩
  · intro q hq
    exact exists_same_place_iff hordered hfit fun hempty =>
      hq.spelled.token_ne_empty "" hempty rfl
  · exact hbefore.imp fun h => beq_false_of_ne h.ne

/-- A member with a slash in its name is at a place, what is below an empty name is at none. -/
theorem places_are_addressable_but_below_empty_name :
    let document := object [("", object [("e", null)]), ("a", array [null]), ("c/d", bool true)]
    let q : Pointer := ⟨"/c~1d", ["c/d"]⟩
    document.Ordered ∧ document.ArraysFit ∧ q.Obtainable ∧
    (∃ p ∈ document.places, p.same q = true) ∧ .spell ["", "e"] ∉ document.places ∧
    document.places.map Pointer.raw = ["", "/a", "/a/0", "/c~1d"] := by
  intro document q
  have hordered : document.Ordered := by
    have hnames : ["", "a", "c/d"].Pairwise (· < ·) := by decide
    have hbelow : Ordered (object [("e", null)]) :=
      ⟨List.pairwise_singleton _ _, trivial, trivial⟩
    refine ⟨?_, hbelow, ⟨trivial, trivial⟩, trivial, trivial⟩
    exact (List.pairwise_map (f := Prod.fst)).mp hnames
  have hnull : ArraysFit null := arraysFit_scalar trivial
  have hfit : document.ArraysFit := by
    have hbelow : ArraysFit (object [("e", null)]) :=
      arraysFit_object (List.forall_mem_singleton.mpr hnull)
    have harray : ArraysFit (array [null]) :=
      arraysFit_array (by decide) (List.forall_mem_singleton.mpr hnull)
    have hbool : ArraysFit (bool true) := arraysFit_scalar trivial
    apply arraysFit_object
    exact List.forall_mem_cons.mpr ⟨hbelow, List.forall_mem_cons.mpr
      ⟨harray, List.forall_mem_singleton.mpr hbool⟩⟩
  have hq : q.Obtainable := .parse (show Pointer.parse "/c~1d" = .ok q from rfl)
  obtain ⟨hfound, -, hplaces, -⟩ := places_are_addressable document hordered hfit
  refine ⟨hordered, hfit, hq, (hfound q hq).mpr ⟨bool true, rfl⟩, ?_, rfl⟩
  intro hmem
  obtain ⟨tokens, part, -, hfull, htokens⟩ := (hplaces _).mp hmem
  obtain rfl : ["", "e"] = tokens := congrArg Pointer.tokens htokens
  exact hfull List.mem_cons_self

end Node

end JsonPatch
