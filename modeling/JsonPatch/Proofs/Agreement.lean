import JsonPatch.Proofs.Changes
import JsonPatch.Proofs.Meaning

namespace JsonPatch

/-- The kinds of faults, with what they tell apart from the spelling of a pointer. -/
inductive Fault where
  | indexOutOfBounds (token : String) (length : Nat)
  | invalidIndex (token : String)
  | refusedTest
  | unsuitableDocument
  deriving DecidableEq

/-- The kind of a location fault. -/
def LocationError.fault : LocationError → Fault
  | .indexOutOfBounds _ token length => .indexOutOfBounds token length
  | .invalidIndex _ token => .invalidIndex token
  | .missingMember .. | .notAContainer .. | .insideSource .. => .unsuitableDocument

/-- The kind of a fault of application. -/
def ApplyError.fault : ApplyError → Fault
  | .location cause => cause.fault
  | .noValue .. | .unequal .. => .refusedTest

/-- Two outcomes that are both values alike, or both faults of one kind. -/
inductive Agree {ε α : Type} (kind : ε → Fault) (alike : α → α → Prop) :
    Except ε α → Except ε α → Prop where
  | ok {a b : α} : alike a b → Agree kind alike (.ok a) (.ok b)
  | error {e f : ε} : kind e = kind f → Agree kind alike (.error e) (.error f)

namespace Agree

variable {ε δ α β : Type} {kind : ε → Fault} {alike : α → α → Prop}

theorem mono {other : α → α → Prop} {x y : Except ε α} (h : Agree kind alike x y)
    (himp : ∀ a b, alike a b → other a b) : Agree kind other x y := by
  cases h with
  | ok hab => exact .ok (himp _ _ hab)
  | error hef => exact .error hef

theorem bind {other : β → β → Prop} {x y : Except ε α} {f g : α → Except ε β}
    (h : Agree kind alike x y)
    (hnext : ∀ a b, alike a b → Agree kind other (f a) (g b)) :
    Agree kind other (x >>= f) (y >>= g) := by
  cases h with
  | ok hab => exact hnext _ _ hab
  | error hef => exact .error hef

theorem mapError {other : δ → Fault} (f : ε → δ) (hf : ∀ e, other (f e) = kind e)
    {x y : Except ε α} (h : Agree kind alike x y) :
    Agree other alike (x.mapError f) (y.mapError f) := by
  cases h with
  | ok hab => exact .ok hab
  | error hef => exact .error (by rw [hf, hf, hef])

end Agree

/-- The kind of fault of a token that names no place in an array. -/
def indexFault (token : String) (length : Nat) : Fault :=
  match Pointer.Index.ofToken token with
  | .position _ | .pastEnd => .indexOutOfBounds token length
  | .tooLarge => .indexOutOfBounds token maxLength
  | .malformed => .invalidIndex token

theorem elementIndex_fault {token : String} {n : Nat} (raw : String)
    (h : ∀ i, i < n → Pointer.Index.ofToken token ≠ .position i) :
    ∃ e, elementIndex raw token n = .error e ∧ e.fault = indexFault token n := by
  unfold elementIndex indexFault
  cases hi : Pointer.Index.ofToken token with
  | position i =>
    have hge : ¬i < n := fun hlt => h i hlt hi
    simp only [dif_neg hge]
    exact ⟨_, rfl, rfl⟩
  | pastEnd => exact ⟨_, rfl, rfl⟩
  | tooLarge => exact ⟨_, rfl, rfl⟩
  | malformed => exact ⟨_, rfl, rfl⟩

theorem insertionIndex_fault {token : String} {n : Nat} (raw : String)
    (h : insertionSlot token n = none) :
    ∃ e, insertionIndex raw token n = .error e ∧ e.fault = indexFault token n := by
  unfold insertionIndex indexFault
  unfold insertionSlot at h
  cases hi : Pointer.Index.ofToken token with
  | position i =>
    simp only [hi, ite_eq_right_iff, reduceCtorEq, imp_false] at h
    have hge : ¬i < n + 1 := fun hlt => h (Nat.le_of_lt_succ hlt)
    simp only [dif_neg hge]
    exact ⟨_, rfl, rfl⟩
  | pastEnd => simp [hi] at h
  | tooLarge => exact ⟨_, rfl, rfl⟩
  | malformed => exact ⟨_, rfl, rfl⟩

namespace Node

/-- Nodes that denote the same. -/
def Alike (a b : Node) : Prop := a.meaning = b.meaning

theorem Alike.eq {a b : Node} (h : Alike a b) : a.meaning = b.meaning := h

/-- Location outcomes that agree up to what nodes denote. -/
abbrev LocationsAgree : Except LocationError Node → Except LocationError Node → Prop :=
  Agree LocationError.fault Alike

/-- Nodes that denote the same are containers of one shape, or no containers at all. -/
theorem alike_cases {a b : Node} (h : Alike a b) :
    (∃ xs ys, a = object xs ∧ b = object ys ∧ memberMeanings xs = memberMeanings ys) ∨
    (∃ xs ys, a = array xs ∧ b = array ys ∧ xs.map meaning = ys.map meaning) ∨
    (a.IsScalar ∧ b.IsScalar) := by
  unfold Alike at h
  cases a with
  | object xs => cases b <;> simp_all [meaning]
  | array xs => cases b <;> simp_all [meaning, itemMeanings_eq_map]
  | null => cases b <;> simp_all [meaning, IsScalar]
  | bool x => cases b <;> simp_all [meaning, IsScalar]
  | number n => cases b <;> simp_all [meaning, IsScalar]
  | string s => cases b <;> simp_all [meaning, IsScalar]

theorem alike_object {xs ys : List (String × Node)} (h : memberMeanings xs = memberMeanings ys) :
    Alike (object xs) (object ys) := congrArg Meaning.object h

theorem alike_array {xs ys : List Node} (h : xs.map meaning = ys.map meaning) :
    Alike (array xs) (array ys) := by
  rw [Alike, meaning, meaning, itemMeanings_eq_map, itemMeanings_eq_map, h]

theorem lookup_memberMeanings (name : String) (members : List (String × Node)) :
    (memberMeanings members).lookup name = (members.lookup name).map meaning := by
  induction members with
  | nil => rfl
  | cons m members ih =>
    obtain ⟨n, v⟩ := m
    rw [memberMeanings, List.lookup_cons, List.lookup_cons, ih]
    cases name == n <;> rfl

theorem insert_memberMeanings (name : String) (value : Node) (members : List (String × Node)) :
    memberMeanings (Members.insert name value members) =
      Members.insert name value.meaning (memberMeanings members) := by
  induction members with
  | nil => rfl
  | cons m members ih =>
    obtain ⟨n, v⟩ := m
    rw [Members.insert, memberMeanings, Members.insert]
    split
    · rfl
    · split
      · rfl
      · rw [memberMeanings, ih]

theorem erase_memberMeanings (name : String) (members : List (String × Node)) :
    memberMeanings (Members.erase name members) =
      Members.erase name (memberMeanings members) := by
  induction members with
  | nil => rfl
  | cons m members ih =>
    obtain ⟨n, v⟩ := m
    by_cases hn : n = name
    · subst hn
      rw [memberMeanings, Members.erase_cons_self, Members.erase_cons_self]
    · rw [Members.erase_cons_of_ne hn, memberMeanings, memberMeanings,
        Members.erase_cons_of_ne hn, ih]

theorem insert_alike {xs ys : List (String × Node)} {v w : Node} (name : String)
    (h : memberMeanings xs = memberMeanings ys) (hv : Alike v w) :
    Alike (object (Members.insert name v xs)) (object (Members.insert name w ys)) :=
  alike_object (by rw [insert_memberMeanings, insert_memberMeanings, h, hv])

theorem lookup_alike {xs ys : List (String × Node)} (name : String)
    (h : memberMeanings xs = memberMeanings ys) :
    (xs.lookup name).map meaning = (ys.lookup name).map meaning := by
  rw [← lookup_memberMeanings, ← lookup_memberMeanings, h]

theorem getElem?_alike {xs ys : List Node} (i : Nat) (h : xs.map meaning = ys.map meaning) :
    xs[i]?.map meaning = ys[i]?.map meaning := by
  rw [← List.getElem?_map, ← List.getElem?_map, h]

theorem length_alike {xs ys : List Node} (h : xs.map meaning = ys.map meaning) :
    xs.length = ys.length := by
  rw [← List.length_map meaning, h, List.length_map]

theorem part?_alike {a b : Node} (token : String) (h : Alike a b) :
    (part? token a).map meaning = (part? token b).map meaning := by
  rcases alike_cases h with ⟨xs, ys, rfl, rfl, hxy⟩ | ⟨xs, ys, rfl, rfl, hxy⟩ | ⟨ha, hb⟩
  · exact lookup_alike token hxy
  · simp only [part?]
    cases Pointer.Index.ofToken token with
    | position i => exact getElem?_alike i hxy
    | pastEnd => rfl
    | tooLarge => rfl
    | malformed => rfl
  · rw [part?_scalar ha, part?_scalar hb]

theorem putPart_alike {a b v w : Node} (token : String) (h : Alike a b) (hv : Alike v w) :
    Alike (putPart token v a) (putPart token w b) := by
  rcases alike_cases h with ⟨xs, ys, rfl, rfl, hxy⟩ | ⟨xs, ys, rfl, rfl, hxy⟩ | ⟨ha, hb⟩
  · exact insert_alike token hxy hv
  · simp only [putPart]
    cases Pointer.Index.ofToken token with
    | position i => exact alike_array (by rw [List.map_set, List.map_set, hxy, hv])
    | pastEnd => exact h
    | tooLarge => exact h
    | malformed => exact h
  · rwa [putPart_scalar ha, putPart_scalar hb]

theorem graft_alike {a b v w : Node} (tokens : List String) (h : Alike a b) (hv : Alike v w) :
    Alike (graft v tokens a) (graft w tokens b) := by
  induction tokens generalizing a b with
  | nil => exact hv
  | cons token tokens ih =>
    have hpart := part?_alike token h
    simp only [graft]
    cases ha : part? token a with
    | none =>
      cases hb : part? token b with
      | none => exact h
      | some q => simp [ha, hb] at hpart
    | some p =>
      cases hb : part? token b with
      | none => simp [ha, hb] at hpart
      | some q =>
        have hpq : p.meaning = q.meaning := by simpa [ha, hb] using hpart
        exact putPart_alike token h (ih hpq)

theorem child_agree {a b : Node} (raw other token : String) (h : Alike a b) :
    LocationsAgree (child raw token a) (child other token b) := by
  rcases alike_cases h with ⟨xs, ys, rfl, rfl, hxy⟩ | ⟨xs, ys, rfl, rfl, hxy⟩ | ⟨ha, hb⟩
  · have hlookup := lookup_alike token hxy
    simp only [child]
    cases hx : xs.lookup token with
    | none =>
      cases hy : ys.lookup token with
      | none => exact .error rfl
      | some w => simp [hx, hy] at hlookup
    | some v =>
      cases hy : ys.lookup token with
      | none => simp [hx, hy] at hlookup
      | some w =>
        have hvw : v.meaning = w.meaning := by simpa [hx, hy] using hlookup
        exact .ok hvw
  · have hlen := length_alike hxy
    simp only [child]
    by_cases hfound : ∃ i, i < xs.length ∧ Pointer.Index.ofToken token = .position i
    · obtain ⟨i, hlt, hi⟩ := hfound
      have hlt' : i < ys.length := hlen ▸ hlt
      rw [elementIndex_of_lt raw hi hlt, elementIndex_of_lt other hi hlt']
      have hget := getElem?_alike i hxy
      rw [List.getElem?_eq_getElem hlt, List.getElem?_eq_getElem hlt'] at hget
      exact .ok (Option.some.inj hget)
    · have hnone : ∀ i, i < xs.length → Pointer.Index.ofToken token ≠ .position i :=
        fun i hlt hi => hfound ⟨i, hlt, hi⟩
      obtain ⟨e, he, hkind⟩ := elementIndex_fault raw hnone
      obtain ⟨f, hf, hkind'⟩ := elementIndex_fault other (hlen ▸ hnone)
      rw [he, hf]
      exact .error (by rw [hkind, hkind', hlen])
  · obtain ⟨k, hk⟩ := child_scalar ha raw token
    obtain ⟨l, hl⟩ := child_scalar hb other token
    rw [hk, hl]
    exact .error rfl

theorem follow_agree {a b : Node} (raw other : String) (tokens : List String) (h : Alike a b) :
    LocationsAgree (follow raw tokens a) (follow other tokens b) := by
  induction tokens generalizing a b with
  | nil => exact .ok h
  | cons token tokens ih => exact (child_agree raw other token h).bind fun _ _ hab => ih hab

theorem lookup_agree {a b : Node} {p q : Pointer} (h : Alike a b) (hpq : p.same q = true) :
    LocationsAgree (a.lookup p) (b.lookup q) := by
  rw [lookup, lookup, eq_of_beq hpq]
  exact follow_agree p.raw q.raw q.tokens h

/-- Changes that do alike to containers that denote the same. -/
def ChangesAgree (first second : Change) : Prop :=
  ∀ a b token, Alike a b → LocationsAgree (first a token).outcome (second b token).outcome

theorem insertChild_agree {v w : Node} (raw other : String) (hv : Alike v w) :
    ChangesAgree (insertChild raw v) (insertChild other w) := by
  intro a b token h
  rcases alike_cases h with ⟨xs, ys, rfl, rfl, hxy⟩ | ⟨xs, ys, rfl, rfl, hxy⟩ | ⟨ha, hb⟩
  · exact .ok (insert_alike token hxy hv)
  · have hlen := length_alike hxy
    simp only [insertChild, Traced.outcome_bind, Traced.outcome_ofExcept]
    cases hslot : insertionSlot token xs.length with
    | some i =>
      obtain ⟨hfit, hi⟩ := insertionIndex_of_slot raw hslot
      obtain ⟨hfit', hi'⟩ := insertionIndex_of_slot other (hlen ▸ hslot)
      rw [hi, hi']
      exact .ok (alike_array (by simp only [List.map_insertIdx, hxy, Alike.eq hv]))
    | none =>
      obtain ⟨e, he, hkind⟩ := insertionIndex_fault raw hslot
      obtain ⟨f, hf, hkind'⟩ := insertionIndex_fault other (hlen ▸ hslot)
      rw [he, hf]
      exact .error (by rw [hkind, hkind', hlen])
  · obtain ⟨k, hk⟩ := insertChild_scalar ha raw v token
    obtain ⟨l, hl⟩ := insertChild_scalar hb other w token
    rw [hk, hl]
    exact .error rfl

/-- What a change of one element that is there does to two arrays that denote the same. -/
theorem element_agree {xs ys : List Node} (raw other token : String)
    (hxy : xs.map meaning = ys.map meaning) (f g : Nat → List Node)
    (hfg : ∀ i, (f i).map meaning = (g i).map meaning) :
    LocationsAgree (elementIndex raw token xs.length >>= fun i => .ok (array (f i)))
      (elementIndex other token ys.length >>= fun i => .ok (array (g i))) := by
  have hlen := length_alike hxy
  by_cases hfound : ∃ i, i < xs.length ∧ Pointer.Index.ofToken token = .position i
  · obtain ⟨i, hlt, hi⟩ := hfound
    rw [elementIndex_of_lt raw hi hlt, elementIndex_of_lt other hi (hlen ▸ hlt)]
    exact .ok (alike_array (hfg i))
  · have hnone : ∀ i, i < xs.length → Pointer.Index.ofToken token ≠ .position i :=
      fun i hlt hi => hfound ⟨i, hlt, hi⟩
    obtain ⟨e, he, hkind⟩ := elementIndex_fault raw hnone
    obtain ⟨f, hf, hkind'⟩ := elementIndex_fault other (hlen ▸ hnone)
    rw [he, hf]
    exact .error (by rw [hkind, hkind', hlen])

theorem removeChild_agree (raw other : String) :
    ChangesAgree (removeChild raw) (removeChild other) := by
  intro a b token h
  rcases alike_cases h with ⟨xs, ys, rfl, rfl, hxy⟩ | ⟨xs, ys, rfl, rfl, hxy⟩ | ⟨ha, hb⟩
  · rw [removeChild_object, removeChild_object]
    exact .ok (alike_object (by rw [erase_memberMeanings, erase_memberMeanings, hxy]))
  · simp only [removeChild, Traced.outcome_bind, Traced.outcome_ofExcept, Traced.outcome_pure]
    refine element_agree raw other token hxy (fun i => xs.eraseIdx i) (fun i => ys.eraseIdx i) ?_
    intro i
    rw [← List.eraseIdx_map, ← List.eraseIdx_map, hxy]
  · obtain ⟨k, hk⟩ := removeChild_scalar ha raw token
    obtain ⟨l, hl⟩ := removeChild_scalar hb other token
    rw [hk, hl]
    exact .error rfl

theorem setChild_agree {v w : Node} (raw other : String) (hv : Alike v w) :
    ChangesAgree (setChild raw v) (setChild other w) := by
  intro a b token h
  rcases alike_cases h with ⟨xs, ys, rfl, rfl, hxy⟩ | ⟨xs, ys, rfl, rfl, hxy⟩ | ⟨ha, hb⟩
  · exact .ok (insert_alike token hxy hv)
  · simp only [setChild, Traced.outcome_bind, Traced.outcome_ofExcept, Traced.outcome_pure]
    refine element_agree raw other token hxy (fun i => xs.set i v) (fun i => ys.set i w) ?_
    intro i
    rw [List.map_set, List.map_set, hxy, Alike.eq hv]
  · obtain ⟨k, hk⟩ := setChild_scalar ha raw v token
    obtain ⟨l, hl⟩ := setChild_scalar hb other w token
    rw [hk, hl]
    exact .error rfl

theorem edit_agree {a b : Node} {first second : Change} (raw other : String)
    (place : List String) (token : String) (h : Alike a b)
    (hchange : ChangesAgree first second) :
    LocationsAgree (edit raw first place token a) (edit other second place token b) := by
  refine (follow_agree raw other place h).bind fun c d hcd => ?_
  exact (hchange c d token hcd).bind fun v w hv => .ok (graft_alike place h hv)

theorem add_agree {a b v w : Node} {p q : Pointer} (h : Alike a b) (hpq : p.same q = true)
    (hv : Alike v w) : LocationsAgree (a.add p v).outcome (b.add q w).outcome := by
  have htokens : p.tokens = q.tokens := eq_of_beq hpq
  rcases tokens_cases p with hroot | ⟨place, last, hplace⟩
  · rw [add_outcome_root hroot, add_outcome_root (htokens ▸ hroot)]
    exact .ok hv
  · rw [add_outcome hplace, add_outcome (htokens ▸ hplace)]
    exact edit_agree p.raw q.raw place last h (insertChild_agree p.raw q.raw hv)

theorem remove_agree {a b : Node} {p q : Pointer} (h : Alike a b) (hpq : p.same q = true) :
    LocationsAgree (a.remove p).outcome (b.remove q).outcome := by
  have htokens : p.tokens = q.tokens := eq_of_beq hpq
  rcases tokens_cases p with hroot | ⟨place, last, hplace⟩
  · rw [remove_outcome_root hroot, remove_outcome_root (htokens ▸ hroot)]
    exact .ok h
  · rw [remove_outcome hplace, remove_outcome (htokens ▸ hplace)]
    exact edit_agree p.raw q.raw place last h (removeChild_agree p.raw q.raw)

theorem replace_agree {a b v w : Node} {p q : Pointer} (h : Alike a b) (hpq : p.same q = true)
    (hv : Alike v w) : LocationsAgree (a.replace p v).outcome (b.replace q w).outcome := by
  have htokens : p.tokens = q.tokens := eq_of_beq hpq
  rcases tokens_cases p with hroot | ⟨place, last, hplace⟩
  · rw [replace_outcome_root hroot, replace_outcome_root (htokens ▸ hroot)]
    exact .ok hv
  · rw [replace_outcome hplace, replace_outcome (htokens ▸ hplace)]
    exact edit_agree p.raw q.raw place last h (setChild_agree p.raw q.raw hv)

theorem copy_agree {a b : Node} {s t p q : Pointer} (h : Alike a b) (hst : s.same t = true)
    (hpq : p.same q = true) : LocationsAgree (a.copy s p).outcome (b.copy t q).outcome := by
  simp only [copy, Traced.outcome_bind, Traced.outcome_ofExcept]
  exact (lookup_agree h hst).bind fun v w hv => add_agree h hpq hv

theorem move_agree {a b : Node} {s t p q : Pointer} (h : Alike a b) (hst : s.same t = true)
    (hpq : p.same q = true) : LocationsAgree (a.move s p).outcome (b.move t q).outcome := by
  have hs : s.tokens = t.tokens := eq_of_beq hst
  have hp : p.tokens = q.tokens := eq_of_beq hpq
  have hinside : p.isInside s = q.isInside t := by rw [Pointer.isInside, hs, hp]; rfl
  have hsame : s.same p = t.same q := by rw [Pointer.same, hs, hp]; rfl
  simp only [move, hinside, hsame]
  cases q.isInside t with
  | true => exact .error rfl
  | false =>
    simp only [Bool.false_eq_true, if_false, Traced.outcome_bind, Traced.outcome_ofExcept]
    refine (lookup_agree h hst).bind fun v w hv => ?_
    cases t.same q with
    | true => exact .ok h
    | false =>
      simp only [Bool.false_eq_true, if_false, Traced.outcome_bind]
      exact (remove_agree h hst).bind fun c d hcd => add_agree hcd hpq hv

/-- Of documents and expectations that denote the same, both tests pass or both are refused. -/
theorem test_agree {a b v w : Node} {p q : Pointer} (h : Alike a b) (hpq : p.same q = true)
    (hv : Alike v w) :
    Agree ApplyError.fault (fun _ _ => True) (a.test p v) (b.test q w) := by
  have hlookup := lookup_agree h hpq
  unfold test
  cases ha : a.lookup p with
  | error e =>
    cases hb : b.lookup q with
    | error f => exact .error rfl
    | ok d =>
      rw [ha, hb] at hlookup
      cases hlookup
  | ok c =>
    cases hb : b.lookup q with
    | error f =>
      rw [ha, hb] at hlookup
      cases hlookup
    | ok d =>
      rw [ha, hb] at hlookup
      cases hlookup with
      | ok hcd =>
        have hsame : c.same v = d.same w := by
          rw [Bool.eq_iff_iff, same_iff_meaning_eq, same_iff_meaning_eq, hcd.eq, hv.eq]
        simp only [hsame]
        cases d.same w with
        | true => exact .ok trivial
        | false => exact .error rfl

end Node

open Node in
theorem Operation.apply_agree {a b : Node} {o r : Operation} (h : Alike a b)
    (hor : o.same r = true) :
    Agree ApplyError.fault Alike (o.apply a).outcome (r.apply b).outcome := by
  have hlift {x y : Except LocationError Node} (hxy : LocationsAgree x y) :
      Agree ApplyError.fault Alike (x.mapError ApplyError.location)
        (y.mapError ApplyError.location) :=
    hxy.mapError ApplyError.location fun _ => rfl
  cases o with
  | add p v =>
    cases r with
    | add q w =>
      simp only [Operation.same, Bool.and_eq_true, same_iff_meaning_eq] at hor
      exact hlift (add_agree h hor.1 hor.2)
    | _ => cases hor
  | remove p =>
    cases r with
    | remove q => exact hlift (remove_agree h hor)
    | _ => cases hor
  | replace p v =>
    cases r with
    | replace q w =>
      simp only [Operation.same, Bool.and_eq_true, same_iff_meaning_eq] at hor
      exact hlift (replace_agree h hor.1 hor.2)
    | _ => cases hor
  | move s p =>
    cases r with
    | move t q =>
      simp only [Operation.same, Bool.and_eq_true] at hor
      exact hlift (move_agree h hor.1 hor.2)
    | _ => cases hor
  | copy s p =>
    cases r with
    | copy t q =>
      simp only [Operation.same, Bool.and_eq_true] at hor
      exact hlift (copy_agree h hor.1 hor.2)
    | _ => cases hor
  | test p v =>
    cases r with
    | test q w =>
      simp only [Operation.same, Bool.and_eq_true, same_iff_meaning_eq] at hor
      simp only [Operation.apply, Traced.outcome_bind, Traced.outcome_ofExcept]
      exact (test_agree h hor.1 hor.2).bind fun _ _ _ => .ok h
    | _ => cases hor

namespace Patch

open Node in
theorem applyFrom_agree {a b : Node} (os rs : List Operation) (i j : Nat) (h : Alike a b)
    (hor : sameOperations os rs = true) :
    Agree ApplyError.fault Alike (applyFrom i os a).outcome (applyFrom j rs b).outcome := by
  induction os generalizing rs a b i j with
  | nil =>
    cases rs with
    | nil => exact .ok h
    | cons r rs => cases hor
  | cons o os ih =>
    cases rs with
    | nil => cases hor
    | cons r rs =>
      simp only [sameOperations, Bool.and_eq_true] at hor
      simp only [applyFrom, Traced.outcome_bind, Traced.outcome_report]
      exact (Operation.apply_agree h hor.1).bind fun c d hcd => ih rs (i + 1) (j + 1) hcd hor.2

/-- Equal patches on equal documents both give documents, and equal ones, or both fail with a fault
of one kind. -/
theorem apply_respects_equality (p q : Patch) (a b : Node) (hpatch : p.same q = true)
    (hdocument : a.same b = true) :
    Agree ApplyError.fault (fun c d => c.same d = true) (p.apply a).outcome
      (q.apply b).outcome := by
  have h : Node.Alike a b := (Node.same_iff_meaning_eq a b).mp hdocument
  exact (applyFrom_agree p.operations q.operations 0 0 h hpatch).mono fun c d hcd =>
    (Node.same_iff_meaning_eq c d).mpr hcd

/-- A test for `1` before a removal, on a document that holds `1.0`, with two spellings of the
pointers. -/
theorem apply_respects_equality_mixed :
    let one := Node.number (.integer 1 (by decide) (by decide))
    let oneDouble := Node.number (.double ⟨false, 4607182418800017408, by decide⟩)
    let p : Patch := ⟨[.test ⟨"/a~2", ["a~2"]⟩ one, .remove ⟨"/a~2/0", ["a~2", "0"]⟩], by simp⟩
    let q : Patch :=
      ⟨[.test ⟨"/a~02", ["a~2"]⟩ oneDouble, .remove ⟨"/a~02/0", ["a~2", "0"]⟩], by simp⟩
    let a := Node.object [("a~2", oneDouble)]
    let b := Node.object [("a~2", one)]
    p.same q = true ∧ a.same b = true ∧
      Agree ApplyError.fault (fun c d => c.same d = true) (p.apply a).outcome
        (q.apply b).outcome := by
  intro one oneDouble p q a b
  have hpatch : p.same q = true := by decide +kernel
  have hdocument : a.same b = true := by decide +kernel
  exact ⟨hpatch, hdocument, apply_respects_equality p q a b hpatch hdocument⟩

end Patch

end JsonPatch
