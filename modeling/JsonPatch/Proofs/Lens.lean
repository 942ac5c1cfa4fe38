import JsonPatch.Proofs.Independence

namespace JsonPatch.Node

section Container

variable {raw token : String} {value container changed : Node}

/-- A value that is set is put where the token leads, or a new member is made there. -/
theorem setChild_eq_putPart (h : (setChild raw value container token).outcome = .ok changed) :
    changed = putPart token value container := by
  rcases (setChild_eq_ok_iff raw value container token changed).mp h with
    ⟨members, rfl, rfl⟩ | ⟨items, i, rfl, hindex, -, rfl⟩
  · rfl
  · simp only [putPart, hindex]

theorem part?_setChild (h : (setChild raw value container token).outcome = .ok changed) :
    part? token changed = some value := by
  rcases (setChild_eq_ok_iff raw value container token changed).mp h with
    ⟨members, rfl, rfl⟩ | ⟨items, i, rfl, hindex, hlt, rfl⟩
  · exact Members.lookup_insert_self token value members
  · simp only [part?, hindex, List.getElem?_set_self hlt]

/-- A part that is there can be set to any value. -/
theorem setChild_of_part {part : Node} (h : part? token container = some part) (raw : String)
    (value : Node) :
    (setChild raw value container token).outcome = .ok (putPart token value container) := by
  rw [setChild_eq_ok_iff]
  rcases part?_cases h with ⟨members, rfl, -⟩ | ⟨items, i, rfl, hindex, hpart⟩
  · exact .inl ⟨members, rfl, rfl⟩
  · obtain ⟨hlt, -⟩ := List.getElem?_eq_some_iff.mp hpart
    refine .inr ⟨items, i, rfl, hindex, hlt, ?_⟩
    simp only [putPart, hindex]

/-- Of two values set the second counts, and it is refused if the first is. -/
theorem setChild_setChild (raw token : String) (first second container : Node) :
    (setChild raw first container token >>= fun rest => setChild raw second rest token).outcome =
      (setChild raw second container token).outcome := by
  rw [Traced.outcome_bind]
  cases hfirst : (setChild raw first container token).outcome with
  | ok changed =>
    change (setChild raw second changed token).outcome = _
    have hchanged := setChild_eq_putPart hfirst
    rw [setChild_of_part (part?_setChild hfirst), hchanged, putPart_putPart]
    rcases (setChild_eq_ok_iff raw first container token changed).mp hfirst with
      ⟨members, rfl, -⟩ | ⟨items, i, rfl, hindex, hlt, -⟩
    · rfl
    · have hpart : (array items).part? token = some items[i] := by simp [part?, hindex, hlt]
      exact (setChild_of_part hpart raw second).symm
  | error e =>
    change Except.error e = _
    cases container with
    | object members => cases hfirst
    | array items =>
      simp only [setChild, Traced.outcome_bind, Traced.outcome_ofExcept, Traced.outcome_pure]
        at hfirst ⊢
      cases hindex : elementIndex raw token items.length with
      | ok i =>
        rw [hindex] at hfirst
        cases hfirst
      | error d =>
        rw [hindex] at hfirst
        exact hfirst.symm
    | _ => exact hfirst.symm

end Container

variable {document result value : Node} {p q : Pointer}

/-- What was put is found. -/
theorem lookup_replace (h : (document.replace p value).outcome = .ok result) :
    result.lookup p = .ok value := by
  rcases tokens_cases p with hroot | ⟨place, last, hplace⟩
  · rw [replace_outcome_root hroot] at h
    cases h
    exact lookup_root hroot _
  · obtain ⟨container, changed, hcontainer, hchanged, rfl⟩ := (replace_eq_ok_iff hplace ..).mp h
    rw [lookup_eq_ok_iff hplace]
    exact ⟨changed, follow_graft p.raw changed hcontainer, part?_setChild hchanged⟩

/-- Of two values put the second counts, and it is refused, with the same fault, if the first is. -/
theorem replace_replace (document first second : Node) (p : Pointer) :
    ((document.replace p first).outcome >>= fun rest => (rest.replace p second).outcome) =
      (document.replace p second).outcome := by
  rcases tokens_cases p with hroot | ⟨place, last, hplace⟩
  · simp only [replace_outcome_root hroot]
    rfl
  · simp only [replace_outcome hplace]
    rw [edit_edit]
    apply edit_congr
    intro container _
    exact setChild_setChild p.raw last first second container

theorem replace_eq_error {e : LocationError} (h : (document.replace p value).outcome = .error e)
    (other : Node) : (document.replace p other).outcome = .error e := by
  rw [← replace_replace document value other p, h]
  rfl

/-- Where one value can be put, every other one can. -/
theorem exists_replace (h : (document.replace p value).outcome = .ok result) (other : Node) :
    ∃ again, (document.replace p other).outcome = .ok again := by
  cases hother : (document.replace p other).outcome with
  | ok again => exact ⟨again, rfl⟩
  | error e =>
    rw [replace_eq_error hother value] at h
    cases h

/-- Putting what is found changes nothing. -/
theorem replace_lookup (hordered : document.Ordered) (h : document.lookup p = .ok value) :
    (document.replace p value).outcome = .ok document := by
  rcases tokens_cases p with hroot | ⟨place, last, hplace⟩
  · rw [lookup_root hroot] at h
    cases h
    exact replace_outcome_root hroot document document
  · obtain ⟨container, hcontainer, hpart⟩ := (lookup_eq_ok_iff hplace ..).mp h
    rw [replace_eq_ok_iff hplace]
    refine ⟨container, _, hcontainer, setChild_of_part hpart p.raw value, ?_⟩
    rw [putPart_self (ordered_of_follow hordered hcontainer) hpart, graft_self hordered hcontainer]

/-- What lies neither on the way to the place nor inside of it is found as before, or missed for the
same reason. The paths part either on the way to the container or at the value itself. -/
theorem lookup_replace_of_fork (h : (document.replace p value).outcome = .ok result)
    (hqp : ¬q.tokens <+: p.tokens) (hpq : ¬p.tokens <+: q.tokens) :
    result.lookup q = document.lookup q := by
  obtain ⟨s, t, ps, qs, hst, hp, hq⟩ := exists_fork hpq hqp
  generalize sharedTokens p.tokens q.tokens = shared at hp hq
  unfold lookup
  rcases List.eq_nil_or_concat' ps with rfl | ⟨ps, last, rfl⟩
  · -- Siblings: the container is changed at the one token and asked for the other.
    obtain ⟨container, changed, hcontainer, hchanged, rfl⟩ := (replace_eq_ok_iff hp ..).mp h
    rw [hq, follow_append, follow_append, follow_graft q.raw changed hcontainer,
      follow_raw q.raw hcontainer]
    change follow q.raw (t :: qs) changed = follow q.raw (t :: qs) container
    rw [follow, follow, setChild_eq_putPart hchanged, child_putPart_of_ne q.raw (Ne.symm hst)]
  · have hplace : p.tokens = (shared ++ s :: ps) ++ [last] := by
      rw [hp, List.append_assoc, List.cons_append]
    obtain ⟨container, changed, -, -, rfl⟩ := (replace_eq_ok_iff hplace ..).mp h
    have hplaceFork : (shared ++ s :: ps)[shared.length]? = some s := by simp
    have hpathFork : q.tokens[shared.length]? = some t := by simp [hq]
    exact follow_graft_of_ne q.raw changed hplaceFork hpathFork (Ne.symm hst) document

/-- Replacing and looking up at one place are a lens, and a replacement keeps all that lies neither
on the way to the place nor inside of it. -/
theorem replace_is_lens (document : Node) (p : Pointer) :
    (∀ v result, (document.replace p v).outcome = .ok result →
      result.lookup p = .ok v ∧
      (∀ w, ∃ again, (result.replace p w).outcome = .ok again ∧
        (document.replace p w).outcome = .ok again) ∧
      ∀ q : Pointer, ¬q.tokens <+: p.tokens → ¬p.tokens <+: q.tokens →
        result.lookup q = document.lookup q) ∧
    (∀ v w, ((∃ result, (document.replace p v).outcome = .ok result) ↔
        ∃ result, (document.replace p w).outcome = .ok result) ∧
      ∀ e, (document.replace p v).outcome = .error e ↔
        (document.replace p w).outcome = .error e) ∧
    (document.Ordered → ∀ u, document.lookup p = .ok u →
      (document.replace p u).outcome = .ok document) := by
  refine ⟨?_, ?_, fun hordered u hu => replace_lookup hordered hu⟩
  · intro v result hv
    refine ⟨lookup_replace hv, ?_, fun q hqp hpq => lookup_replace_of_fork hv hqp hpq⟩
    intro w
    obtain ⟨again, hagain⟩ := exists_replace hv w
    have hsecond := replace_replace document v w p
    rw [hv, hagain] at hsecond
    exact ⟨again, hsecond, hagain⟩
  · intro v w
    refine ⟨⟨?_, ?_⟩, fun e => ⟨fun he => replace_eq_error he w, fun he => replace_eq_error he v⟩⟩
    · rintro ⟨result, hresult⟩
      exact exists_replace hresult w
    · rintro ⟨result, hresult⟩
      exact exists_replace hresult v

/-- A member is made where there was none, beside another one and behind an array. -/
theorem replace_is_lens_at_absent_member :
    let document := array [null, object [("a", bool true)]]
    let result := array [null, object [("a", bool true), ("b", null)]]
    let path : Pointer := ⟨"/1/b", ["1", "b"]⟩
    let sibling : Pointer := ⟨"/1/a", ["1", "a"]⟩
    let beyond : Pointer := ⟨"/2", ["2"]⟩
    (document.replace path null).outcome = .ok result ∧ result.lookup path = .ok null ∧
      (¬sibling.tokens <+: path.tokens ∧ ¬path.tokens <+: sibling.tokens) ∧
      result.lookup sibling = document.lookup sibling ∧
      (¬beyond.tokens <+: path.tokens ∧ ¬path.tokens <+: beyond.tokens) ∧
      result.lookup beyond = .error (.indexOutOfBounds "/2" "2" 2) ∧
      document.Ordered ∧ document.lookup sibling = .ok (bool true) ∧
      (document.replace sibling (bool true)).outcome = .ok document := by
  intro document result path sibling beyond
  have hreplace : (document.replace path null).outcome = .ok result := rfl
  have hsibling : ¬sibling.tokens <+: path.tokens ∧ ¬path.tokens <+: sibling.tokens := by decide
  have hbeyond : ¬beyond.tokens <+: path.tokens ∧ ¬path.tokens <+: beyond.tokens := by decide
  have hordered : document.Ordered :=
    ⟨trivial, ⟨List.pairwise_singleton _ _, trivial, trivial⟩, trivial⟩
  obtain ⟨hfound, -, hframe⟩ := (replace_is_lens document path).1 null result hreplace
  have hself := (replace_is_lens document sibling).2.2 hordered (bool true) rfl
  refine ⟨hreplace, hfound, hsibling, hframe sibling hsibling.1 hsibling.2, hbeyond, ?_, hordered,
    rfl, hself⟩
  rw [hframe beyond hbeyond.1 hbeyond.2]
  rfl

end JsonPatch.Node
