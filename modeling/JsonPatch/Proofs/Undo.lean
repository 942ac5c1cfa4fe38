import JsonPatch.Proofs.RemoveThenAdd
import JsonPatch.Proofs.Ordered
import JsonPatch.Proofs.Pointer.Ancestry

namespace JsonPatch.Node

/-- Whether a value that is put into a container at a token displaces none. The positions of an
array are those that a 64-bit word holds. -/
def IsFree (token : String) : Node → Prop
  | array items => items.length ≤ maxLength
  | object members => members.lookup token = none
  | _ => False

/-- The token of the place that a value gets when it is put into a container at a token: for the
end of an array, its position. -/
def settledToken (token : String) : Node → String
  | array items => if token = "-" then toString items.length else token
  | _ => token

theorem ofToken_settledToken {token : String} {items : List Node} {i : Nat}
    (hlength : items.length ≤ maxLength) (hslot : insertionSlot token items.length = some i) :
    Pointer.Index.ofToken (settledToken token (array items)) = .position i := by
  simp only [settledToken]
  unfold insertionSlot at hslot
  by_cases hdash : token = "-"
  · subst hdash
    rw [if_pos rfl]
    have hi : items.length = i := Option.some.inj hslot
    exact (Pointer.Index.ofToken_eq_position_iff _ i).mpr ⟨congrArg toString hi, hi ▸ hlength⟩
  · rw [if_neg hdash]
    cases hindex : Pointer.Index.ofToken token with
    | position j =>
      simp only [hindex, Option.ite_none_right_eq_some, Option.some.injEq] at hslot
      rw [hslot.2]
    | pastEnd => exact absurd ((Pointer.Index.ofToken_eq_pastEnd_iff token).mp hindex) hdash
    | tooLarge => simp [hindex] at hslot
    | malformed => simp [hindex] at hslot

section Container

variable {raw token : String} {value container changed : Node}

/-- A value put into a container where it displaces none can be removed again. -/
theorem removeChild_insertChild (hordered : container.Ordered) (hfree : container.IsFree token)
    (h : (insertChild raw value container token).outcome = .ok changed) (other : String) :
    (removeChild other changed (settledToken token container)).outcome = .ok container := by
  rw [removeChild_eq_ok_iff]
  rcases (insertChild_eq_ok_iff raw value container token changed).mp h with
    ⟨members, rfl, rfl⟩ | ⟨items, i, rfl, hslot, rfl⟩
  · left
    refine ⟨_, rfl, ?_⟩
    change _ = object (Members.erase token (Members.insert token value members))
    rw [Members.erase_insert hordered.1 hfree]
  · right
    have hle := insertionSlot_le hslot
    refine ⟨_, i, rfl, ofToken_settledToken hfree hslot, ?_, ?_⟩
    · rw [List.length_insertIdx_of_le_length hle]
      omega
    · rw [List.eraseIdx_insertIdx_self]

/-- A value put at a token stands where the settled token leads. -/
theorem part?_insertChild (hlength : ∀ items, container = array items → items.length ≤ maxLength)
    (h : (insertChild raw value container token).outcome = .ok changed) :
    part? (settledToken token container) changed = some value := by
  rcases (insertChild_eq_ok_iff raw value container token changed).mp h with
    ⟨members, rfl, rfl⟩ | ⟨items, i, rfl, hslot, rfl⟩
  · exact Members.lookup_insert_self token value members
  · have hle := insertionSlot_le hslot
    simp only [part?, ofToken_settledToken (hlength items rfl) hslot]
    rw [List.getElem?_insertIdx_self, if_pos hle]

/-- Putting a value at the settled token is putting it at the token. -/
theorem insertChild_settledToken (hfree : container.IsFree token)
    (h : (insertChild raw value container token).outcome = .ok changed) (other : String) :
    (insertChild other value container (settledToken token container)).outcome = .ok changed := by
  rw [insertChild_eq_ok_iff]
  rcases (insertChild_eq_ok_iff raw value container token changed).mp h with
    ⟨members, rfl, rfl⟩ | ⟨items, i, rfl, hslot, rfl⟩
  · exact .inl ⟨members, rfl, rfl⟩
  · right
    refine ⟨items, i, rfl, ?_, rfl⟩
    simp only [insertionSlot, ofToken_settledToken hfree hslot]
    exact if_pos (insertionSlot_le hslot)

/-- A member that was overwritten can be set again. -/
theorem setChild_insertChild {members : List (String × Node)} {old : Node}
    (hordered : (object members).Ordered) (hold : members.lookup token = some old)
    (h : (insertChild raw value (object members) token).outcome = .ok changed) (other : String) :
    (setChild other old changed token).outcome = .ok (object members) := by
  cases h
  rw [setChild_eq_ok_iff]
  left
  refine ⟨_, rfl, ?_⟩
  rw [Members.insert_insert, Members.insert_of_lookup hordered.1 hold]

end Container

/-- Whether a value that is added at a pointer displaces none. -/
def IsVacant (document : Node) (p : Pointer) : Prop :=
  ∃ container last, document.container p = .ok container ∧ p.last? = some last ∧
    container.IsFree last

/-- The tokens of the place that a value gets when it is added at a pointer. -/
def settle (document : Node) (p : Pointer) : List String :=
  match document.container p, p.last? with
  | .ok container, some last => p.tokens.dropLast ++ [settledToken last container]
  | _, _ => p.tokens

variable {document result value container : Node} {p q : Pointer} {place : List String}
  {last : String}

theorem isFree_of_isVacant (hplace : p.tokens = place ++ [last])
    (hvacant : document.IsVacant p) (hcontainer : follow p.raw place document = .ok container) :
    container.IsFree last := by
  obtain ⟨found, token, hfound, htoken, hfree⟩ := hvacant
  rw [container_of_concat hplace, hcontainer] at hfound
  rw [last?_of_concat hplace] at htoken
  cases hfound
  cases htoken
  exact hfree

theorem length_le_of_isVacant (hvacant : document.IsVacant p) :
    ∀ items, document.container p = .ok (array items) → items.length ≤ maxLength := by
  intro items hitems
  obtain ⟨container, last, hcontainer, -, hfree⟩ := hvacant
  rw [hitems] at hcontainer
  cases hcontainer
  exact hfree

theorem settle_root (hroot : p.tokens = []) : document.settle p = [] := by
  have hlast : p.last? = none := by rw [Pointer.last?, hroot, List.getLast?_nil]
  rw [settle, hlast, hroot]
  cases document.container p <;> rfl

theorem settle_of_container (hplace : p.tokens = place ++ [last])
    (hcontainer : follow p.raw place document = .ok container) :
    document.settle p = place ++ [settledToken last container] := by
  rw [settle, container_of_concat hplace, last?_of_concat hplace, hcontainer, hplace,
    List.dropLast_concat]

/-- An addition that displaces nothing puts the value into a container that has room for it, at the
last of its settled tokens. -/
theorem exists_of_vacant_add (hne : p.tokens ≠ [])
    (hadd : (document.add p value).outcome = .ok result) (hvacant : document.IsVacant p)
    (hq : q.tokens = document.settle p) :
    ∃ place last container changed, p.tokens = place ++ [last] ∧
      q.tokens = place ++ [settledToken last container] ∧
      follow p.raw place document = .ok container ∧ container.IsFree last ∧
      (insertChild p.raw value container last).outcome = .ok changed ∧
      result = graft changed place document := by
  obtain ⟨place, last, hplace⟩ := exists_concat hne
  obtain ⟨container, changed, hcontainer, hchanged, hresult⟩ := (add_eq_ok_iff hplace ..).mp hadd
  have hfree := isFree_of_isVacant hplace hvacant hcontainer
  rw [settle_of_container hplace hcontainer] at hq
  exact ⟨place, last, container, changed, hplace, hq, hcontainer, hfree, hchanged, hresult⟩

/-- What was added where it displaced nothing can be removed. -/
theorem remove_add (hordered : document.Ordered) (hne : p.tokens ≠ [])
    (hadd : (document.add p value).outcome = .ok result) (hvacant : document.IsVacant p)
    (hq : q.tokens = document.settle p) : (result.remove q).outcome = .ok document := by
  obtain ⟨place, last, container, changed, -, hq, hcontainer, hfree, hchanged, rfl⟩ :=
    exists_of_vacant_add hne hadd hvacant hq
  rw [remove_outcome hq]
  apply edit_graft hordered hcontainer
  exact removeChild_insertChild (ordered_of_follow hordered hcontainer) hfree hchanged q.raw

/-- What was added stands where its settled tokens lead. -/
theorem lookup_add (hadd : (document.add p value).outcome = .ok result)
    (hlength : ∀ items, document.container p = .ok (array items) → items.length ≤ maxLength)
    (hq : q.tokens = document.settle p) : result.lookup q = .ok value := by
  rcases tokens_cases p with hroot | ⟨place, last, hplace⟩
  · rw [add_outcome_root hroot] at hadd
    cases hadd
    exact lookup_root (hq.trans (settle_root hroot)) _
  · obtain ⟨container, changed, hcontainer, hchanged, rfl⟩ := (add_eq_ok_iff hplace ..).mp hadd
    rw [settle_of_container hplace hcontainer] at hq
    rw [container_of_concat hplace, hcontainer] at hlength
    rw [lookup_eq_ok_iff hq]
    refine ⟨changed, follow_graft q.raw changed hcontainer, part?_insertChild ?_ hchanged⟩
    intro items hitems
    exact hlength items (congrArg Except.ok hitems)

/-- Adding at the settled tokens is adding at the pointer. -/
theorem add_settle (hne : p.tokens ≠ []) (hadd : (document.add p value).outcome = .ok result)
    (hvacant : document.IsVacant p) (hq : q.tokens = document.settle p) :
    (document.add q value).outcome = .ok result := by
  obtain ⟨place, last, container, changed, -, hq, hcontainer, hfree, hchanged, rfl⟩ :=
    exists_of_vacant_add hne hadd hvacant hq
  rw [add_eq_ok_iff hq]
  exact ⟨container, changed, follow_raw q.raw hcontainer,
    insertChild_settledToken hfree hchanged q.raw, rfl⟩

/-- A member that was overwritten can be put back. -/
theorem replace_add {old : Node} (hordered : document.Ordered) (hne : p.tokens ≠ [])
    (hadd : (document.add p value).outcome = .ok result) (hold : document.member? p = some old) :
    (result.replace p old).outcome = .ok document := by
  obtain ⟨place, last, hplace⟩ := exists_concat hne
  obtain ⟨container, changed, hcontainer, hchanged, rfl⟩ := (add_eq_ok_iff hplace ..).mp hadd
  rw [member?_of_container hplace hcontainer] at hold
  obtain ⟨members, rfl, hlookup⟩ := memberAt_eq_some hold
  rw [replace_outcome hplace]
  apply edit_graft hordered hcontainer
  exact setChild_insertChild (ordered_of_follow hordered hcontainer) hlookup hchanged p.raw

/-- A token is settled already, or settles where nothing is yet. -/
theorem settledToken_cases {token : String} (hfree : container.IsFree token) :
    settledToken token container = token ∨
      part? (settledToken token container) container = none := by
  cases container with
  | array items =>
    by_cases hdash : token = "-"
    · right
      have hposition := (Pointer.Index.ofToken_eq_position_iff _ items.length).mpr ⟨rfl, hfree⟩
      simp only [settledToken, if_pos hdash, part?, hposition]
      exact List.getElem?_eq_none (Nat.le_refl _)
    · left
      exact if_neg hdash
  | _ => exact .inl rfl

/-- A removal leaves every part on the way to what it removes. -/
theorem exists_follow_of_remove {source : Pointer} {front back : List String}
    (hremove : (document.remove source).outcome = .ok result)
    (hsource : source.tokens = front ++ back) (hback : back ≠ []) (raw : String) :
    ∃ part, follow raw front result = .ok part := by
  obtain ⟨middle, last, rfl⟩ := exists_concat hback
  rw [← List.append_assoc] at hsource
  obtain ⟨container, changed, hcontainer, -, rfl⟩ := (remove_eq_ok_iff hsource ..).mp hremove
  have hkept := follow_graft raw changed hcontainer
  rw [follow_append] at hkept
  obtain ⟨part, hpart, -⟩ := bind_eq_ok.mp hkept
  exact ⟨part, hpart⟩

/-- The old place of a moved value does not lie inside its new one. -/
theorem isInside_settle {source path : Pointer} {rest : Node} (hne : path.tokens ≠ [])
    (hremove : (document.remove source).outcome = .ok rest)
    (hadd : (rest.add path value).outcome = .ok result)
    (hpath : ¬path.tokens <+: source.tokens) (hvacant : rest.IsVacant path)
    (hq : q.tokens = rest.settle path) : source.isInside q = false := by
  rw [Bool.eq_false_iff]
  intro hinside
  obtain ⟨back, hbackne, hback⟩ := (Pointer.isInside_iff source q).mp hinside
  obtain ⟨place, last, container, _, hplace, hq, hcontainer, hfree, -, -⟩ :=
    exists_of_vacant_add hne hadd hvacant hq
  rcases settledToken_cases hfree with hsettled | hnone
  · rw [hsettled, ← hplace] at hq
    exact hpath ⟨back, hq ▸ hback.symm⟩
  · obtain ⟨part, hpart⟩ := exists_follow_of_remove hremove hback hbackne path.raw
    rw [hq, follow_append, hcontainer] at hpart
    change follow path.raw [settledToken last container] container = .ok part at hpart
    rw [follow_singleton, child_eq_ok_iff, hnone] at hpart
    cases hpart

/-- A value that was moved where it displaced nothing can be moved back. -/
theorem move_move {source path : Pointer} {rest : Node} (hordered : document.Ordered)
    (hmove : (document.move source path).outcome = .ok result)
    (hsource : ¬source.tokens <+: path.tokens) (hpath : ¬path.tokens <+: source.tokens)
    (hremove : (document.remove source).outcome = .ok rest) (hvacant : rest.IsVacant path)
    (hq : q.tokens = rest.settle path) : (result.move q source).outcome = .ok document := by
  have hne : path.tokens ≠ [] := by
    intro hnil
    exact hpath (hnil ▸ List.nil_prefix)
  obtain ⟨-, value, hfound, hcases⟩ := (move_eq_ok_iff document source path result).mp hmove
  have hsame : source.same path = false := by
    rw [Bool.eq_false_iff]
    intro hsame
    exact hsource (eq_of_beq hsame ▸ List.prefix_rfl)
  rcases hcases with ⟨htrue, -⟩ | ⟨-, rest', hrest, hadd⟩
  · rw [hsame] at htrue
    cases htrue
  rw [hremove] at hrest
  cases hrest
  have hrestOrdered := ordered_remove hordered hremove
  -- Both orders of the way back end in the document: the removal gives the rest, and the value is
  -- put back where it was.
  have hback {target : Pointer} (htarget : source.tokens = target.tokens) :
      (rest.add target value).outcome = .ok document := by
    obtain ⟨removed, hremoved, hrestored⟩ := add_remove hordered htarget hfound
    rw [hremove] at hremoved
    cases hremoved
    exact hrestored
  rw [move_eq_ok_iff]
  refine ⟨isInside_settle hne hremove hadd hpath hvacant hq, value,
    lookup_add hadd (length_le_of_isVacant hvacant) hq, ?_⟩
  cases hqs : q.same source with
  | true =>
    left
    have hagain := add_settle hne hadd hvacant hq
    rw [hback (eq_of_beq hqs).symm] at hagain
    exact ⟨rfl, Except.ok.inj hagain⟩
  | false =>
    right
    exact ⟨rfl, rest, remove_add hrestOrdered hne hadd hvacant hq, hback rfl⟩

/-- Edits that succeed can be undone exactly, where the value settled and with the member that it
overwrote. -/
theorem edits_undone (document : Node) (hordered : document.Ordered) :
    (∀ (p q : Pointer) (value result : Node), p.tokens ≠ [] →
      (document.add p value).outcome = .ok result → document.IsVacant p →
      q.tokens = document.settle p → (result.remove q).outcome = .ok document) ∧
    (∀ (p : Pointer) (value result old : Node), p.tokens ≠ [] →
      (document.add p value).outcome = .ok result → document.member? p = some old →
      (result.replace p old).outcome = .ok document) ∧
    (∀ (p : Pointer) (value result : Node), document.lookup p = .ok value →
      (document.remove p).outcome = .ok result → (result.add p value).outcome = .ok document) ∧
    (∀ (source path q : Pointer) (rest result : Node),
      (document.move source path).outcome = .ok result → ¬source.tokens <+: path.tokens →
      ¬path.tokens <+: source.tokens → (document.remove source).outcome = .ok rest →
      rest.IsVacant path → q.tokens = rest.settle path →
      (result.move q source).outcome = .ok document) := by
  refine ⟨?_, ?_, ?_, ?_⟩
  · intro p q value result hne hadd hvacant hq
    exact remove_add hordered hne hadd hvacant hq
  · intro p value result old hne hadd hold
    exact replace_add hordered hne hadd hold
  · intro p value result hfound hremove
    obtain ⟨rest, hrest, hback⟩ := add_remove hordered rfl hfound
    rw [hremove] at hrest
    cases hrest
    exact hback
  · intro source path q rest result hmove hsource hpath hremove hvacant hq
    exact move_move hordered hmove hsource hpath hremove hvacant hq

/-- The first element of an array moved to its end, and back from where it stands then. -/
theorem edits_undone_at_end :
    let document := object [("a", array [null, bool true, array []])]
    let rest := object [("a", array [bool true, array []])]
    let result := object [("a", array [bool true, array [], null])]
    let source : Pointer := ⟨"/a/0", ["a", "0"]⟩
    let path : Pointer := ⟨"/a/-", ["a", "-"]⟩
    let back : Pointer := ⟨"/a/2", ["a", "2"]⟩
    document.Ordered ∧ (document.move source path).outcome = .ok result ∧
      (document.remove source).outcome = .ok rest ∧ rest.IsVacant path ∧
      back.tokens = rest.settle path ∧ (result.move back source).outcome = .ok document := by
  intro document rest result source path back
  have hordered : document.Ordered :=
    ⟨List.pairwise_singleton _ _, ⟨trivial, trivial, trivial, trivial⟩, trivial⟩
  have hvacant : rest.IsVacant path :=
    ⟨array [bool true, array []], "-", rfl, rfl, (by decide : 2 ≤ maxLength)⟩
  have hsettle : back.tokens = rest.settle path := by rfl
  have hundo := (edits_undone document hordered).2.2.2 source path back rest result rfl
    (by decide) (by decide) rfl hvacant hsettle
  exact ⟨hordered, rfl, rfl, hvacant, hsettle, hundo⟩

end JsonPatch.Node
