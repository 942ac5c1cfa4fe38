import Mathlib.Data.List.Lex
import JsonPatch.Proofs.Traced

namespace JsonPatch.Yaml

/-- What stands at a place: the key of an entry, or a value. -/
inductive Place where
  | key (key : Yaml)
  | value (value : Yaml)

namespace Place

/-- The places directly inside a place, in the order of the text: a key stands before its value. A
key is not entered, and neither is what a tag marks. -/
def inner : Place → List Place
  | value (.sequence items) => items.map value
  | value (.mapping entries) => entries.flatMap fun entry => [key entry.1, value entry.2]
  | _ => []

/-- What is amiss at a place itself, whatever may be amiss inside of it. -/
def fault? : Place → Option ReadError
  | key (.string _) => none
  | key other => some (.nonStringKey other)
  | value (.number (.double (.finite _))) => none
  | value (.number (.double d)) => some (.notFinite d)
  | value (.tagged tag _) => some (.unsupportedTag tag)
  | value _ => none

/-- What positions lead to from a place. Of two paths the lesser one, as a list of numbers, leads to
the place that comes first in the text; a place comes before those inside it. -/
inductive At : Place → List Nat → Place → Prop where
  | here (p : Place) : At p [] p
  | inside {p q r : Place} {i : Nat} {path : List Nat} : p.inner[i]? = some q → At q path r →
      At p (i :: path) r

/-- Whether nothing is amiss at a place or anywhere inside of it. -/
def IsClean (p : Place) : Prop := ∀ path q, At p path q → q.fault? = none

/-- Whether a fault is that of the first place that has one. -/
def FirstFault (p : Place) (e : ReadError) : Prop :=
  ∃ path q, At p path q ∧ q.fault? = some e ∧
    ∀ earlier other, At p earlier other → earlier < path → other.fault? = none

theorem At.unique {p q r : Place} {path : List Nat} (hq : At p path q) (hr : At p path r) :
    q = r := by
  induction hq with
  | here p =>
    cases hr
    rfl
  | inside hi _ ih =>
    cases hr with
    | inside hi' hr =>
      obtain rfl := Option.some.inj (hi.symm.trans hi')
      exact ih hr

theorem IsClean.fault? {p : Place} (h : p.IsClean) : p.fault? = none := h [] p (.here p)

theorem IsClean.inner {p q : Place} (h : p.IsClean) (hq : q ∈ p.inner) : q.IsClean := by
  obtain ⟨i, hi⟩ := List.mem_iff_getElem?.mp hq
  intro path r hr
  exact h (i :: path) r (.inside hi hr)

theorem isClean_of_inner {p : Place} (hfault : p.fault? = none)
    (hinner : ∀ q ∈ p.inner, q.IsClean) : p.IsClean := by
  intro path r hr
  cases hr with
  | here => exact hfault
  | inside hi hr => exact hinner _ (List.mem_of_getElem? hi) _ r hr

/-- With nothing inside, a place is clean if nothing is amiss at the place itself. -/
theorem isClean_of_inner_nil {p : Place} (hfault : p.fault? = none) (hinner : p.inner = []) :
    p.IsClean := by
  apply isClean_of_inner hfault
  intro q hq
  rw [hinner] at hq
  cases hq

/-- A condition that keeps faults away, and that passes on to the places inside, keeps a place
clean. -/
theorem isClean_of_forall {P : Place → Prop} (hfault : ∀ p, P p → p.fault? = none)
    (hinner : ∀ p q, P p → q ∈ p.inner → P q) {p : Place} (h : P p) : p.IsClean := by
  intro path q hq
  induction hq with
  | here p => exact hfault p h
  | inside hi _ ih => exact ih (hinner _ _ h (List.mem_of_getElem? hi))

theorem firstFault_of_fault? {p : Place} {e : ReadError} (h : p.fault? = some e) :
    p.FirstFault e := by
  refine ⟨[], p, .here p, h, ?_⟩
  intro earlier other _ hlt
  exact absurd hlt (List.not_lt_nil earlier)

/-- A fault inside a place is the first one if the places before it have none. -/
theorem firstFault_of_inner {p q : Place} {front back : List Place} {e : ReadError}
    (hfault : p.fault? = none) (hinner : p.inner = front ++ q :: back)
    (hfront : ∀ r ∈ front, r.IsClean) (hq : q.FirstFault e) : p.FirstFault e := by
  obtain ⟨path, r, hr, he, hfirst⟩ := hq
  have hi : p.inner[front.length]? = some q := by simp [hinner]
  refine ⟨front.length :: path, r, .inside hi hr, he, ?_⟩
  intro earlier other hother hlt
  cases hother with
  | here => exact hfault
  | @inside _ s _ j earlier hj hother =>
    rcases List.cons_lt_cons_iff.mp hlt with hless | ⟨rfl, htail⟩
    · rw [hinner, List.getElem?_append_left hless] at hj
      exact hfront s (List.mem_of_getElem? hj) earlier other hother
    · obtain rfl := Option.some.inj (hi.symm.trans hj)
      exact hfirst earlier other hother htail

theorem FirstFault.unique {p : Place} {e f : ReadError} (he : p.FirstFault e)
    (hf : p.FirstFault f) : e = f := by
  obtain ⟨path, q, hq, hqe, hpath⟩ := he
  obtain ⟨path', r, hr, hrf, hpath'⟩ := hf
  rcases lt_trichotomy path path' with hlt | rfl | hgt
  · rw [hpath' path q hq hlt] at hqe
    cases hqe
  · obtain rfl := hq.unique hr
    exact Option.some.inj (hqe.symm.trans hrf)
  · rw [hpath path' r hr hgt] at hrf
    cases hrf

theorem FirstFault.not_isClean {p : Place} {e : ReadError} (h : p.FirstFault e) : ¬p.IsClean := by
  obtain ⟨path, q, hq, he, -⟩ := h
  intro hclean
  rw [hclean path q hq] at he
  cases he

/-- Whether an outcome is right for places that are looked at in a row, up to the first fault. -/
def Judges {α : Type} (places : List Place) : Except ReadError α → Prop
  | .ok _ => ∀ p ∈ places, p.IsClean
  | .error e => ∃ front p back, places = front ++ p :: back ∧ (∀ q ∈ front, q.IsClean) ∧
      p.FirstFault e

section Judges

variable {α β : Type} {p : Place} {places others : List Place} {outcome : Except ReadError α}

theorem judges_nil (a : α) : Judges [] (.ok a : Except ReadError α) := by
  intro p hp
  cases hp

/-- A place at fault ends the row. -/
theorem judges_of_fault? {e : ReadError} (h : p.fault? = some e) (places : List Place) :
    Judges (p :: places) (.error e : Except ReadError α) :=
  ⟨[], p, places, rfl, fun _ hq => absurd hq List.not_mem_nil, firstFault_of_fault? h⟩

/-- Behind places without fault the row goes on. -/
theorem Judges.bind {f : α → Except ReadError β} (h : Judges places outcome)
    (hf : ∀ a, Judges others (f a)) : Judges (places ++ others) (outcome >>= f) := by
  cases outcome with
  | error e =>
    obtain ⟨front, p, back, rfl, hfront, hp⟩ := h
    exact ⟨front, p, back ++ others, by rw [List.append_assoc, List.cons_append], hfront, hp⟩
  | ok a =>
    have hclean : ∀ p ∈ places, p.IsClean := h
    have hnext := hf a
    change Judges (places ++ others) (f a)
    cases hfa : f a with
    | ok b =>
      rw [hfa] at hnext
      exact List.forall_mem_append.mpr ⟨hclean, hnext⟩
    | error e =>
      rw [hfa] at hnext
      obtain ⟨front, p, back, rfl, hfront, hp⟩ := hnext
      exact ⟨places ++ front, p, back, (List.append_assoc ..).symm,
        List.forall_mem_append.mpr ⟨hclean, hfront⟩, hp⟩

theorem Judges.map (h : Judges places outcome) (f : α → β) :
    Judges places (outcome >>= fun a => .ok (f a)) := by
  have hbind := h.bind fun a => judges_nil (f a)
  rwa [List.append_nil] at hbind

theorem Judges.cons (hp : p.IsClean) (h : Judges places outcome) :
    Judges (p :: places) outcome := by
  have hclean : Judges [p] (.ok () : Except ReadError Unit) := by
    intro q hq
    rw [List.mem_singleton.mp hq]
    exact hp
  exact hclean.bind fun _ => h

/-- Looking at a place that has no fault of its own is looking at the places inside of it. -/
theorem Judges.container (hfault : p.fault? = none) (h : Judges p.inner outcome) :
    Judges [p] outcome := by
  cases outcome with
  | ok a =>
    intro q hq
    rw [List.mem_singleton.mp hq]
    exact isClean_of_inner hfault h
  | error e =>
    obtain ⟨front, q, back, hinner, hfront, hq⟩ := h
    exact ⟨[], p, [], rfl, fun _ hr => absurd hr List.not_mem_nil,
      firstFault_of_inner hfault hinner hfront hq⟩

theorem Judges.isClean {a : α} (h : Judges [p] (.ok a : Except ReadError α)) : p.IsClean :=
  h p List.mem_cons_self

theorem Judges.firstFault {e : ReadError} (h : Judges [p] (.error e : Except ReadError α)) :
    p.FirstFault e := by
  obtain ⟨front, q, back, hplaces, -, hq⟩ := h
  cases front with
  | nil =>
    obtain ⟨rfl, -⟩ := List.cons.inj hplaces
    exact hq
  | cons r front => simp at hplaces

/-- What is right for a place is a value if the place is clean, and nothing else. -/
theorem Judges.ok_iff (h : Judges [p] outcome) : (∃ a, outcome = .ok a) ↔ p.IsClean := by
  cases outcome with
  | ok a => exact ⟨fun _ => h.isClean, fun _ => ⟨a, rfl⟩⟩
  | error e =>
    constructor
    · rintro ⟨a, ha⟩
      cases ha
    · intro hclean
      exact absurd hclean h.firstFault.not_isClean

/-- What is right for a place is its first fault if it has one, and nothing else. -/
theorem Judges.error_iff (h : Judges [p] outcome) (e : ReadError) :
    outcome = .error e ↔ p.FirstFault e := by
  cases outcome with
  | ok a =>
    constructor
    · intro ha
      cases ha
    · intro he
      exact absurd h.isClean he.not_isClean
  | error f =>
    constructor
    · intro hf
      cases hf
      exact h.firstFault
    · intro he
      rw [he.unique h.firstFault]

end Judges

end Place

end JsonPatch.Yaml
