import Mathlib.Data.String.Basic
import JsonPatch.Json.Basic

namespace JsonPatch.Members

variable {α : Type}

/-- The empty object ascends. -/
theorem ascending_nil : Ascending ([] : List (String × α)) := List.Pairwise.nil

theorem ascending_cons (m : String × α) (ms : List (String × α)) :
    Ascending (m :: ms) ↔ (∀ x ∈ ms, m.1 < x.1) ∧ Ascending ms := List.pairwise_cons

theorem ascending_of_names {β : Type} {first : List (String × α)} {second : List (String × β)}
    (hnames : second.map Prod.fst = first.map Prod.fst) (h : Ascending first) :
    Ascending second := by
  have hfirst : (first.map Prod.fst).Pairwise (· < ·) := List.pairwise_map.mpr h
  exact List.pairwise_map.mp (hnames ▸ hfirst)

theorem lookup_cons_self (name : String) (value : α) (ms : List (String × α)) :
    ((name, value) :: ms).lookup name = some value := by
  rw [List.lookup_cons, beq_self_eq_true]

theorem lookup_cons_of_ne {name other : String} (h : other ≠ name) (value : α)
    (ms : List (String × α)) : ((name, value) :: ms).lookup other = ms.lookup other := by
  rw [List.lookup_cons, beq_false_of_ne h]

/-- Behind a member only greater names are found. -/
theorem lookup_eq_none_of_lt (name : String) (ms : List (String × α))
    (h : ∀ x ∈ ms, name < x.1) : ms.lookup name = none := by
  induction ms with
  | nil => rfl
  | cons m ms ih =>
    obtain ⟨n, v⟩ := m
    have hne : name ≠ n := String.ne_of_lt (h (n, v) List.mem_cons_self)
    rw [lookup_cons_of_ne hne]
    exact ih fun x hx => h x (List.mem_cons_of_mem _ hx)

/-- A member is found under its name. -/
theorem lookup_of_mem {name : String} {value : α} {ms : List (String × α)} (h : Ascending ms)
    (hmem : (name, value) ∈ ms) : ms.lookup name = some value := by
  induction ms with
  | nil => cases hmem
  | cons m ms ih =>
    obtain ⟨hfirst, hrest⟩ := (ascending_cons m ms).mp h
    rcases List.mem_cons.mp hmem with rfl | hmem
    · exact lookup_cons_self name value ms
    · rw [lookup_cons_of_ne (String.ne_of_lt (hfirst _ hmem)).symm]
      exact ih hrest hmem

/-- The three places that a new member can take at the head of an object. -/
theorem insert_cons_cases (name n : String) (value v : α) (ms : List (String × α)) :
    (name < n ∧ insert name value ((n, v) :: ms) = (name, value) :: (n, v) :: ms) ∨
    (name = n ∧ insert name value ((n, v) :: ms) = (name, value) :: ms) ∨
    (n < name ∧ insert name value ((n, v) :: ms) = (n, v) :: insert name value ms) := by
  rcases lt_trichotomy name n with hlt | heq | hgt
  · left
    exact ⟨hlt, by rw [insert, if_pos hlt]⟩
  · right; left
    subst heq
    exact ⟨rfl, by rw [insert, if_neg (String.lt_irrefl name), if_pos rfl]⟩
  · right; right
    refine ⟨hgt, ?_⟩
    rw [insert, if_neg (String.lt_asymm hgt), if_neg (String.ne_of_lt hgt).symm]

@[simp]
theorem lookup_insert_self (name : String) (value : α) (ms : List (String × α)) :
    (insert name value ms).lookup name = some value := by
  induction ms with
  | nil => exact lookup_cons_self name value []
  | cons m ms ih =>
    obtain ⟨n, v⟩ := m
    rcases insert_cons_cases name n value v ms with ⟨_, he⟩ | ⟨_, he⟩ | ⟨hgt, he⟩
    · rw [he, lookup_cons_self]
    · rw [he, lookup_cons_self]
    · rw [he, lookup_cons_of_ne (String.ne_of_lt hgt).symm, ih]

/-- Setting one member leaves every other. -/
theorem lookup_insert_of_ne {name other : String} (h : other ≠ name) (value : α)
    (ms : List (String × α)) : (insert name value ms).lookup other = ms.lookup other := by
  induction ms with
  | nil => exact lookup_cons_of_ne h value []
  | cons m ms ih =>
    obtain ⟨n, v⟩ := m
    rcases insert_cons_cases name n value v ms with ⟨_, he⟩ | ⟨heq, he⟩ | ⟨_, he⟩
    · rw [he, lookup_cons_of_ne h]
    · subst heq
      rw [he, lookup_cons_of_ne h, lookup_cons_of_ne h]
    · rw [he, List.lookup_cons, List.lookup_cons, ih]

/-- Of two values set for one name the later one counts. -/
theorem insert_insert (name : String) (first second : α) (ms : List (String × α)) :
    insert name second (insert name first ms) = insert name second ms := by
  induction ms with
  | nil => simp only [insert, if_neg (String.lt_irrefl name), if_true]
  | cons m ms ih =>
    obtain ⟨n, v⟩ := m
    rcases lt_trichotomy name n with hlt | heq | hgt
    · simp only [insert, if_pos hlt, if_neg (String.lt_irrefl name), if_true]
    · subst heq
      simp only [insert, if_neg (String.lt_irrefl name), if_true]
    · simp only [insert, if_neg (String.lt_asymm hgt), if_neg (String.ne_of_lt hgt).symm, ih]

/-- The members after an insertion are old ones and the new one. -/
theorem forall_mem_insert {p : String × α → Prop} (name : String) (value : α)
    (ms : List (String × α)) (hn : p (name, value)) (h : ∀ x ∈ ms, p x) :
    ∀ x ∈ insert name value ms, p x := by
  induction ms with
  | nil =>
    intro x hx
    rw [insert, List.mem_singleton] at hx
    rw [hx]
    exact hn
  | cons m ms ih =>
    obtain ⟨n, v⟩ := m
    have htail : ∀ x ∈ ms, p x := fun x hx => h x (List.mem_cons_of_mem _ hx)
    intro x hx
    rcases insert_cons_cases name n value v ms with ⟨_, he⟩ | ⟨_, he⟩ | ⟨_, he⟩
    · rw [he] at hx
      rcases List.mem_cons.mp hx with rfl | hx
      · exact hn
      · exact h x hx
    · rw [he] at hx
      rcases List.mem_cons.mp hx with rfl | hx
      · exact hn
      · exact htail x hx
    · rw [he] at hx
      rcases List.mem_cons.mp hx with rfl | hx
      · exact h (n, v) List.mem_cons_self
      · exact ih htail x hx

/-- Insertion keeps the order of names. -/
theorem ascending_insert (name : String) (value : α) (ms : List (String × α))
    (h : Ascending ms) : Ascending (insert name value ms) := by
  induction ms with
  | nil =>
    rw [insert, ascending_cons]
    exact ⟨fun x hx => absurd hx List.not_mem_nil, ascending_nil⟩
  | cons m ms ih =>
    obtain ⟨n, v⟩ := m
    obtain ⟨hhead, htail⟩ := (ascending_cons (n, v) ms).mp h
    rcases insert_cons_cases name n value v ms with ⟨hlt, he⟩ | ⟨heq, he⟩ | ⟨hgt, he⟩
    · rw [he, ascending_cons]
      refine ⟨fun x hx => ?_, h⟩
      rcases List.mem_cons.mp hx with rfl | hx
      · exact hlt
      · exact String.lt_trans hlt (hhead x hx)
    · subst heq
      rw [he, ascending_cons]
      exact ⟨hhead, htail⟩
    · rw [he, ascending_cons]
      refine ⟨?_, ih htail⟩
      exact forall_mem_insert (p := fun x => n < x.1) name value ms hgt hhead

/-- A name behind all others is set at the end. -/
theorem insert_of_forall_lt (name : String) (value : α) (ms : List (String × α))
    (h : ∀ x ∈ ms, x.1 < name) : insert name value ms = ms ++ [(name, value)] := by
  induction ms with
  | nil => rfl
  | cons m ms ih =>
    obtain ⟨n, v⟩ := m
    have hgt : n < name := h (n, v) List.mem_cons_self
    rw [insert, if_neg (String.lt_asymm hgt), if_neg (String.ne_of_lt hgt).symm,
      ih fun x hx => h x (List.mem_cons_of_mem _ hx), List.cons_append]

/-- A member that has its value already is not changed by setting it. -/
theorem insert_of_lookup {name : String} {value : α} {ms : List (String × α)}
    (hasc : Ascending ms) (h : ms.lookup name = some value) : insert name value ms = ms := by
  induction ms with
  | nil => simp at h
  | cons m ms ih =>
    obtain ⟨n, v⟩ := m
    obtain ⟨hhead, htail⟩ := (ascending_cons (n, v) ms).mp hasc
    rcases insert_cons_cases name n value v ms with ⟨hlt, _⟩ | ⟨heq, he⟩ | ⟨hgt, he⟩
    · have hnone : ((n, v) :: ms).lookup name = none := by
        apply lookup_eq_none_of_lt
        intro x hx
        rcases List.mem_cons.mp hx with rfl | hx
        · exact hlt
        · exact String.lt_trans hlt (hhead x hx)
      simp [hnone] at h
    · subst heq
      rw [lookup_cons_self] at h
      rw [he, Option.some.inj h]
    · rw [lookup_cons_of_ne (String.ne_of_lt hgt).symm] at h
      rw [he, ih htail h]

theorem erase_cons_self (name : String) (v : α) (ms : List (String × α)) :
    erase name ((name, v) :: ms) = ms := by
  rw [erase, List.eraseP_cons_of_pos]
  exact beq_self_eq_true name

theorem erase_cons_of_ne {name n : String} (h : n ≠ name) (v : α) (ms : List (String × α)) :
    erase name ((n, v) :: ms) = (n, v) :: erase name ms := by
  rw [erase, List.eraseP_cons_of_neg, erase]
  simpa only [beq_iff_eq] using h

/-- Dropping an absent member changes nothing. -/
theorem erase_of_lookup_none {name : String} {ms : List (String × α)}
    (h : ms.lookup name = none) : erase name ms = ms := by
  induction ms with
  | nil => rfl
  | cons m ms ih =>
    obtain ⟨n, v⟩ := m
    by_cases hn : name = n
    · subst hn
      simp at h
    · rw [lookup_cons_of_ne hn] at h
      rw [erase_cons_of_ne (Ne.symm hn), ih h]

/-- Dropping one member leaves every other. -/
theorem lookup_erase_of_ne {name other : String} (h : other ≠ name) (ms : List (String × α)) :
    (erase name ms).lookup other = ms.lookup other := by
  induction ms with
  | nil => rfl
  | cons m ms ih =>
    obtain ⟨n, v⟩ := m
    by_cases hn : n = name
    · subst hn
      rw [erase_cons_self, lookup_cons_of_ne h]
    · rw [erase_cons_of_ne hn, List.lookup_cons, List.lookup_cons, ih]

/-- Dropping keeps the order of names. -/
theorem ascending_erase (name : String) (ms : List (String × α)) (h : Ascending ms) :
    Ascending (erase name ms) := List.Pairwise.sublist List.eraseP_sublist h

/-- A member that is dropped and set again stands where it stood. -/
theorem insert_erase {name : String} {value : α} {ms : List (String × α)}
    (hasc : Ascending ms) (h : ms.lookup name = some value) :
    insert name value (erase name ms) = ms := by
  induction ms with
  | nil => simp at h
  | cons m ms ih =>
    obtain ⟨n, v⟩ := m
    obtain ⟨hhead, htail⟩ := (ascending_cons (n, v) ms).mp hasc
    by_cases hn : name = n
    · subst hn
      rw [lookup_cons_self] at h
      rw [erase_cons_self, Option.some.inj h]
      cases ms with
      | nil => rfl
      | cons m ms =>
        obtain ⟨n', v'⟩ := m
        rw [insert, if_pos (hhead (n', v') List.mem_cons_self)]
    · rw [lookup_cons_of_ne hn] at h
      have hlt : n < name := by
        rcases lt_trichotomy name n with hlt | heq | hgt
        · have hnone : ms.lookup name = none :=
            lookup_eq_none_of_lt name ms fun x hx => String.lt_trans hlt (hhead x hx)
          simp [hnone] at h
        · exact absurd heq hn
        · exact hgt
      rw [erase_cons_of_ne (Ne.symm hn), insert, if_neg (String.lt_asymm hlt), if_neg hn,
        ih htail h]

/-- Ascending members are told apart by what is found under some name. -/
theorem ext_of_lookup {first second : List (String × α)} (hfirst : Ascending first)
    (hsecond : Ascending second) (h : ∀ name, first.lookup name = second.lookup name) :
    first = second := by
  induction first generalizing second with
  | nil =>
    cases second with
    | nil => rfl
    | cons m ms =>
      have hm := h m.1
      rw [lookup_cons_self] at hm
      simp at hm
  | cons m ms ih =>
    obtain ⟨m, u⟩ := m
    obtain ⟨hmhead, hmtail⟩ := (ascending_cons (m, u) ms).mp hfirst
    cases second with
    | nil =>
      have hm := h m
      rw [lookup_cons_self] at hm
      simp at hm
    | cons n ns =>
      obtain ⟨n, v⟩ := n
      obtain ⟨hnhead, hntail⟩ := (ascending_cons (n, v) ns).mp hsecond
      have hbelow {k l : String} {w : α} {ls : List (String × α)} (hkl : k < l)
          (hls : ∀ x ∈ ls, l < x.1) : ((l, w) :: ls).lookup k = none := by
        apply lookup_eq_none_of_lt
        intro x hx
        rcases List.mem_cons.mp hx with rfl | hx
        · exact hkl
        · exact String.lt_trans hkl (hls x hx)
      have hname : m = n := by
        rcases lt_trichotomy m n with hlt | heq | hgt
        · have hm := h m
          rw [lookup_cons_self, hbelow hlt hnhead] at hm
          cases hm
        · exact heq
        · have hn := h n
          rw [lookup_cons_self, hbelow hgt hmhead] at hn
          cases hn
      subst hname
      have hvalue : u = v := by
        have hm := h m
        rw [lookup_cons_self, lookup_cons_self] at hm
        exact Option.some.inj hm
      subst hvalue
      have hrest : ms = ns := by
        apply ih hmtail hntail
        intro name
        by_cases hname : name = m
        · subst hname
          rw [lookup_eq_none_of_lt name ms hmhead, lookup_eq_none_of_lt name ns hnhead]
        · have hn := h name
          rwa [lookup_cons_of_ne hname, lookup_cons_of_ne hname] at hn
      rw [hrest]

theorem lookup_erase_self (name : String) {ms : List (String × α)} (h : Ascending ms) :
    (erase name ms).lookup name = none := by
  induction ms with
  | nil => rfl
  | cons m ms ih =>
    obtain ⟨n, v⟩ := m
    obtain ⟨hhead, htail⟩ := (ascending_cons (n, v) ms).mp h
    by_cases hn : n = name
    · subst hn
      rw [erase_cons_self]
      exact lookup_eq_none_of_lt n ms hhead
    · rw [erase_cons_of_ne hn, lookup_cons_of_ne (Ne.symm hn), ih htail]

/-- Sets a member, or drops it where no value is given. -/
def assign (name : String) : Option α → List (String × α) → List (String × α)
  | some value, members => insert name value members
  | none, members => erase name members

theorem ascending_assign (name : String) (value : Option α) {ms : List (String × α)}
    (h : Ascending ms) : Ascending (assign name value ms) := by
  cases value with
  | some value => exact ascending_insert name value ms h
  | none => exact ascending_erase name ms h

/-- Assigning to a name changes what is found there, and nothing else. -/
theorem lookup_assign (name other : String) (value : Option α) {ms : List (String × α)}
    (h : Ascending ms) :
    (assign name value ms).lookup other = if other = name then value else ms.lookup other := by
  by_cases hname : other = name
  · subst hname
    rw [if_pos rfl]
    cases value with
    | some value => exact lookup_insert_self other value ms
    | none => exact lookup_erase_self other h
  · rw [if_neg hname]
    cases value with
    | some value => exact lookup_insert_of_ne hname value ms
    | none => exact lookup_erase_of_ne hname ms

/-- What is found under each name tells an assignment from any other change. -/
theorem eq_assign_of_lookup {name : String} {value : Option α} {changed ms : List (String × α)}
    (hchanged : Ascending changed) (h : Ascending ms)
    (hlookup : ∀ other, changed.lookup other = if other = name then value else ms.lookup other) :
    changed = assign name value ms := by
  apply ext_of_lookup hchanged (ascending_assign name value h)
  intro other
  rw [hlookup, lookup_assign name other value h]

/-- Assignments to different names commute. -/
theorem assign_comm {name other : String} (hne : name ≠ other) (first second : Option α)
    {ms : List (String × α)} (h : Ascending ms) :
    assign name first (assign other second ms) = assign other second (assign name first ms) := by
  have hother := ascending_assign other second h
  have hname := ascending_assign name first h
  apply ext_of_lookup (ascending_assign name first hother) (ascending_assign other second hname)
  intro key
  rw [lookup_assign name key first hother, lookup_assign other key second h,
    lookup_assign other key second hname, lookup_assign name key first h]
  by_cases hkey : key = name
  · subst hkey
    rw [if_pos rfl, if_neg hne, if_pos rfl]
  · rw [if_neg hkey, if_neg hkey]

/-- Assigning what is found already changes nothing. -/
theorem assign_lookup (name : String) {ms : List (String × α)} (h : Ascending ms) :
    assign name (ms.lookup name) ms = ms := by
  apply ext_of_lookup (ascending_assign name _ h) h
  intro key
  rw [lookup_assign name key _ h]
  by_cases hkey : key = name
  · rw [if_pos hkey, hkey]
  · rw [if_neg hkey]

/-- A new member that is dropped again leaves no trace. -/
theorem erase_insert {name : String} {ms : List (String × α)} (hasc : Ascending ms)
    (h : ms.lookup name = none) (value : α) : erase name (insert name value ms) = ms := by
  have hinsert := ascending_insert name value ms hasc
  apply ext_of_lookup (ascending_erase name _ hinsert) hasc
  intro key
  by_cases hkey : key = name
  · subst hkey
    rw [lookup_erase_self key hinsert, h]
  · rw [lookup_erase_of_ne hkey, lookup_insert_of_ne hkey]

/-- Dropping a member before it is set makes no difference. -/
theorem insert_erase_self {name : String} {ms : List (String × α)} (hasc : Ascending ms)
    (value : α) : insert name value (erase name ms) = insert name value ms := by
  have herase := ascending_erase name ms hasc
  apply ext_of_lookup (ascending_insert name value _ herase) (ascending_insert name value ms hasc)
  intro key
  by_cases hkey : key = name
  · rw [hkey, lookup_insert_self, lookup_insert_self]
  · rw [lookup_insert_of_ne hkey, lookup_insert_of_ne hkey, lookup_erase_of_ne hkey]

/-- A member that is found is one of the members, and the others are what is left without it. -/
theorem perm_of_lookup {name : String} {value : α} {ms : List (String × α)}
    (h : ms.lookup name = some value) : ms.Perm ((name, value) :: erase name ms) := by
  induction ms with
  | nil => simp at h
  | cons m ms ih =>
    obtain ⟨n, v⟩ := m
    by_cases hn : name = n
    · subst hn
      rw [lookup_cons_self] at h
      rw [erase_cons_self, Option.some.inj h]
    · rw [lookup_cons_of_ne hn] at h
      rw [erase_cons_of_ne (Ne.symm hn)]
      exact ((ih h).cons (n, v)).trans (List.Perm.swap _ _ _)

/-- A member that is set joins those of other names. -/
theorem insert_perm (name : String) (value : α) {ms : List (String × α)} (h : Ascending ms) :
    (insert name value ms).Perm ((name, value) :: erase name ms) := by
  have hinsert := lookup_insert_self name value ms
  have hrest : erase name (insert name value ms) = erase name ms := by
    apply ext_of_lookup (ascending_erase name _ (ascending_insert name value ms h))
      (ascending_erase name ms h)
    intro key
    by_cases hkey : key = name
    · subst hkey
      rw [lookup_erase_self key (ascending_insert key value ms h), lookup_erase_self key h]
    · rw [lookup_erase_of_ne hkey, lookup_erase_of_ne hkey, lookup_insert_of_ne hkey]
  rw [← hrest]
  exact perm_of_lookup hinsert

theorem length_erase {name : String} {value : α} {ms : List (String × α)}
    (h : ms.lookup name = some value) : (erase name ms).length + 1 = ms.length := by
  have hlength := (perm_of_lookup h).length_eq
  rw [List.length_cons] at hlength
  omega

/-- Setting a member that is there already makes an object no longer. -/
theorem length_insert_of_lookup {name : String} {old : α} {ms : List (String × α)}
    (hasc : Ascending ms) (h : ms.lookup name = some old) (value : α) :
    (insert name value ms).length = ms.length := by
  have hinsert := (insert_perm name value hasc).length_eq
  have herase := length_erase h
  rw [List.length_cons] at hinsert
  omega

theorem length_insert_of_lookup_none {name : String} {ms : List (String × α)}
    (hasc : Ascending ms) (h : ms.lookup name = none) (value : α) :
    (insert name value ms).length = ms.length + 1 := by
  have hinsert := (insert_perm name value hasc).length_eq
  rwa [List.length_cons, erase_of_lookup_none h] at hinsert

/-- The last of some members is set after the others. -/
theorem ofList_concat (ms : List (String × α)) (m : String × α) :
    ofList (ms ++ [m]) = insert m.1 m.2 (ofList ms) := by
  simp only [ofList, List.foldl_append, List.foldl_cons, List.foldl_nil]

/-- Members of the same names in the same order, the two values of each name being related. -/
def Alike {β : Type} (R : α → β → Prop) (first : List (String × α)) (second : List (String × β)) :
    Prop :=
  List.Forall₂ (fun m n => m.1 = n.1 ∧ R m.2 n.2) first second

section Alike

variable {β : Type} {R : α → β → Prop} {first : List (String × α)} {second : List (String × β)}

theorem Alike.names (h : Alike R first second) : second.map Prod.fst = first.map Prod.fst := by
  induction h with
  | nil => rfl
  | cons hm _ ih => rw [List.map_cons, List.map_cons, ih, hm.1]

/-- A name takes the same place in both, since its place depends on the names alone. -/
theorem Alike.insert {value : α} {other : β} (h : Alike R first second) (name : String)
    (hvalue : R value other) :
    Alike R (insert name value first) (insert name other second) := by
  induction h with
  | nil => exact .cons ⟨rfl, hvalue⟩ .nil
  | @cons m n first second hm hrest ih =>
    obtain ⟨key, v⟩ := m
    obtain ⟨_, w⟩ := n
    obtain ⟨rfl, hvw⟩ := hm
    simp only [Members.insert]
    split_ifs with hlt heq
    · exact .cons ⟨rfl, hvalue⟩ (.cons ⟨rfl, hvw⟩ hrest)
    · exact .cons ⟨rfl, hvalue⟩ hrest
    · exact .cons ⟨rfl, hvw⟩ ih

end Alike

end JsonPatch.Members
