import Mathlib.Algebra.BigOperators.Group.List.Basic
import Mathlib.Algebra.Order.Group.Multiset
import Mathlib.Data.List.Perm.Basic
import Mathlib.Tactic.Abel
import JsonPatch.Proofs.Ordered

namespace JsonPatch.Node

/-- The parts directly inside a node. -/
def parts : Node → List Node
  | array items => items
  | object members => members.map Prod.snd
  | _ => []

section Tally

variable {M : Type} [AddCommMonoid M] (container : M) (leaf : Node → M)

/-- What a node adds to a sum by itself. -/
def own : Node → M
  | array _ | object _ => container
  | node => leaf node

mutual

/-- The sum over all nodes of a tree: each container adds the same, and each other node what `leaf`
gives for it. -/
def tally : Node → M
  | array items => container + itemsTally items
  | object members => container + membersTally members
  | node => leaf node

def itemsTally : List Node → M
  | [] => 0
  | item :: items => tally item + itemsTally items

def membersTally : List (String × Node) → M
  | [] => 0
  | (_, value) :: members => tally value + membersTally members

end

theorem itemsTally_eq (items : List Node) :
    itemsTally container leaf items = (items.map (tally container leaf)).sum := by
  induction items with
  | nil => rfl
  | cons item items ih => rw [itemsTally, ih, List.map_cons, List.sum_cons]

theorem membersTally_eq (members : List (String × Node)) :
    membersTally container leaf members =
      ((members.map Prod.snd).map (tally container leaf)).sum := by
  induction members with
  | nil => rfl
  | cons m members ih => rw [membersTally, ih, List.map_cons, List.map_cons, List.sum_cons]

/-- The sum over a tree is that of the node itself and those of its parts. -/
theorem tally_eq (node : Node) :
    tally container leaf node =
      own container leaf node + (node.parts.map (tally container leaf)).sum := by
  cases node with
  | array items => rw [tally, itemsTally_eq, own, parts]
  | object members => rw [tally, membersTally_eq, own, parts]
  | null => exact (add_zero _).symm
  | bool b => exact (add_zero _).symm
  | number n => exact (add_zero _).symm
  | string s => exact (add_zero _).symm

end Tally

/-- The number of nodes of a tree. -/
def size : Node → Nat := tally 1 fun _ => 1

/-- The scalars of a tree, each as often as it occurs, numbers as they are held. -/
def leaves : Node → Multiset Node := tally 0 fun node => {node}

/-- A part is one of the parts, and another put in its place is one in its stead. -/
theorem exists_other_parts {token : String} {node old : Node} (hordered : node.Ordered)
    (h : part? token node = some old) :
    ∃ others, node.parts.Perm (old :: others) ∧
      ∀ new, (putPart token new node).parts.Perm (new :: others) := by
  rcases part?_cases h with ⟨members, rfl, hlookup⟩ | ⟨items, i, rfl, hi, hitem⟩
  · refine ⟨(Members.erase token members).map Prod.snd, ?_, ?_⟩
    · exact (Members.perm_of_lookup hlookup).map Prod.snd
    · intro new
      exact (Members.insert_perm token new hordered.1).map Prod.snd
  · obtain ⟨hlt, rfl⟩ := List.getElem?_eq_some_iff.mp hitem
    refine ⟨items.eraseIdx i, (List.getElem_cons_eraseIdx_perm hlt).symm, ?_⟩
    intro new
    simp only [putPart, hi]
    exact List.set_perm_cons_eraseIdx hlt new

section Container

variable {raw token : String} {value container changed : Node}

/-- A value put into a container joins its parts, in the place of a member of that name. -/
theorem insertChild_parts (hordered : container.Ordered)
    (h : (insertChild raw value container token).outcome = .ok changed) :
    ((memberAt token container).toList ++ changed.parts).Perm (value :: container.parts) := by
  rcases (insertChild_eq_ok_iff raw value container token changed).mp h with
    ⟨members, rfl, rfl⟩ | ⟨items, i, rfl, hslot, rfl⟩
  · have hinsert := (Members.insert_perm token value hordered.1).map Prod.snd
    cases hlookup : members.lookup token with
    | none =>
      rw [Members.erase_of_lookup_none hlookup] at hinsert
      simp only [memberAt, hlookup, Option.toList_none, List.nil_append]
      exact hinsert
    | some old =>
      have hold := (Members.perm_of_lookup hlookup).map Prod.snd
      simp only [memberAt, hlookup, Option.toList_some, List.singleton_append]
      exact ((hinsert.cons old).trans (List.Perm.swap _ _ _)).trans (hold.symm.cons value)
  · exact List.perm_insertIdx value items (insertionSlot_le hslot)

/-- A part that is dropped leaves the others. -/
theorem removeChild_parts (hpart : part? token container = some value)
    (h : (removeChild raw container token).outcome = .ok changed) :
    (value :: changed.parts).Perm container.parts := by
  rcases (removeChild_eq_ok_iff raw container token changed).mp h with
    ⟨members, rfl, rfl⟩ | ⟨items, i, rfl, hi, hlt, rfl⟩
  · exact ((Members.perm_of_lookup hpart).map Prod.snd).symm
  · simp only [part?, hi] at hpart
    obtain ⟨_, rfl⟩ := List.getElem?_eq_some_iff.mp hpart
    exact List.getElem_cons_eraseIdx_perm hlt

end Container

section Sums

variable {M : Type} [AddCommMonoid M] (container : M) (leaf : Node → M)

/-- What a part adds to a sum and what it leaves out, the node around it does too. -/
theorem tally_putPart {token : String} {node old new : Node} {out into : M}
    (hordered : node.Ordered) (h : part? token node = some old)
    (hnew : tally container leaf new + out = tally container leaf old + into) :
    tally container leaf (putPart token new node) + out = tally container leaf node + into := by
  obtain ⟨others, hnode, hput⟩ := exists_other_parts hordered h
  have hown : own container leaf (putPart token new node) = own container leaf node := by
    rcases part?_cases h with ⟨members, rfl, -⟩ | ⟨items, i, rfl, hi, -⟩
    · rfl
    · simp only [putPart, hi]
      rfl
  have hnodeSum := ((hnode.map (tally container leaf)).sum_eq).trans List.sum_cons
  have hputSum := (((hput new).map (tally container leaf)).sum_eq).trans List.sum_cons
  rw [tally_eq container leaf (putPart token new node), tally_eq container leaf node, hown,
    hputSum, hnodeSum]
  calc own container leaf node +
        (tally container leaf new + (others.map (tally container leaf)).sum) + out
      = own container leaf node + (others.map (tally container leaf)).sum +
        (tally container leaf new + out) := by abel
    _ = own container leaf node + (others.map (tally container leaf)).sum +
        (tally container leaf old + into) := by rw [hnew]
    _ = own container leaf node +
        (tally container leaf old + (others.map (tally container leaf)).sum) + into := by abel

/-- So does the whole document, by induction on the way to the part. -/
theorem tally_graft {raw : String} {place : List String} {document old new : Node} {out into : M}
    (hordered : document.Ordered) (h : follow raw place document = .ok old)
    (hnew : tally container leaf new + out = tally container leaf old + into) :
    tally container leaf (graft new place document) + out =
      tally container leaf document + into := by
  induction place generalizing document with
  | nil =>
    cases h
    exact hnew
  | cons token place ih =>
    obtain ⟨part, hpart, hfollow⟩ := (follow_cons_eq_ok_iff raw token place document old).mp h
    rw [graft_cons_of_part new place hpart]
    apply tally_putPart container leaf hordered hpart
    exact ih (ordered_of_part hordered hpart) hfollow

theorem sum_map_toList (part : Option Node) (f : Node → M) :
    (part.toList.map f).sum = part.elim 0 f := by
  cases part with
  | none => rfl
  | some node => exact List.sum_singleton

theorem tally_insertChild {raw token : String} {value node changed : Node}
    (hordered : node.Ordered) (h : (insertChild raw value node token).outcome = .ok changed) :
    tally container leaf changed + (memberAt token node).elim 0 (tally container leaf) =
      tally container leaf node + tally container leaf value := by
  have hown : own container leaf changed = own container leaf node := by
    rcases (insertChild_eq_ok_iff raw value node token changed).mp h with
      ⟨members, rfl, rfl⟩ | ⟨items, i, rfl, -, rfl⟩ <;> rfl
  have hparts := ((insertChild_parts hordered h).map (tally container leaf)).sum_eq
  rw [List.map_append, List.sum_append, sum_map_toList, List.map_cons, List.sum_cons] at hparts
  rw [tally_eq container leaf changed, tally_eq container leaf node, hown, add_assoc, add_assoc,
    add_comm _ (tally container leaf value), ← hparts, add_comm (List.sum _)]

theorem tally_removeChild {raw token : String} {value node changed : Node}
    (hpart : part? token node = some value)
    (h : (removeChild raw node token).outcome = .ok changed) :
    tally container leaf changed + tally container leaf value = tally container leaf node := by
  have hown : own container leaf changed = own container leaf node := by
    rcases (removeChild_eq_ok_iff raw node token changed).mp h with
      ⟨members, rfl, rfl⟩ | ⟨items, i, rfl, -, -, rfl⟩ <;> rfl
  have hparts := ((removeChild_parts hpart h).map (tally container leaf)).sum_eq
  rw [List.map_cons, List.sum_cons] at hparts
  rw [tally_eq container leaf changed, tally_eq container leaf node, hown, ← hparts]
  abel

variable {document value result : Node} {p source path : Pointer}

/-- An addition adds the sum of the value, and takes away that of a member it displaces. -/
theorem tally_add (hordered : document.Ordered) (hne : p.tokens ≠ [])
    (h : (document.add p value).outcome = .ok result) :
    tally container leaf result + (document.member? p).elim 0 (tally container leaf) =
      tally container leaf document + tally container leaf value := by
  obtain ⟨place, last, hplace⟩ := exists_concat hne
  obtain ⟨node, changed, hnode, hchanged, rfl⟩ := (add_eq_ok_iff hplace ..).mp h
  rw [member?_of_container hplace hnode]
  apply tally_graft container leaf hordered hnode
  exact tally_insertChild container leaf (ordered_of_follow hordered hnode) hchanged

/-- A removal takes away the sum of what it removes. -/
theorem tally_remove (hordered : document.Ordered) (hne : p.tokens ≠ [])
    (hfound : document.lookup p = .ok value) (h : (document.remove p).outcome = .ok result) :
    tally container leaf result + tally container leaf value = tally container leaf document := by
  obtain ⟨place, last, hplace⟩ := exists_concat hne
  obtain ⟨node, changed, hnode, hchanged, rfl⟩ := (remove_eq_ok_iff hplace ..).mp h
  obtain ⟨node', hnode', hpart⟩ := (lookup_eq_ok_iff hplace document value).mp hfound
  rw [hnode] at hnode'
  cases hnode'
  have hremove := tally_removeChild container leaf hpart hchanged
  rw [← add_zero (tally container leaf node)] at hremove
  rw [tally_graft container leaf hordered hnode hremove, add_zero]

/-- A move to a place below the root changes a sum only by what it displaces. -/
theorem tally_move {rest : Node} (hordered : document.Ordered) (hsource : source.tokens ≠ [])
    (hpath : path.tokens ≠ []) (hfound : document.lookup source = .ok value)
    (hremove : (document.remove source).outcome = .ok rest)
    (hadd : (rest.add path value).outcome = .ok result) :
    tally container leaf result + (rest.member? path).elim 0 (tally container leaf) =
      tally container leaf document := by
  have hrest := tally_remove container leaf hordered hsource hfound hremove
  have hresult := tally_add container leaf (ordered_remove hordered hremove) hpath hadd
  rw [hresult, hrest]

end Sums

variable {document result : Node} {source path : Pointer}

/-- A move leaves a document as it is, or removes a value below the root and adds it elsewhere. -/
theorem move_cases (hmove : (document.move source path).outcome = .ok result) :
    source.tokens = path.tokens ∧ result = document ∨
      source.tokens ≠ path.tokens ∧ source.tokens ≠ [] ∧
        ∃ value rest, document.lookup source = .ok value ∧
          (document.remove source).outcome = .ok rest ∧
          (rest.add path value).outcome = .ok result := by
  obtain ⟨houtside, value, hfound, hcases⟩ :=
    (move_eq_ok_iff document source path result).mp hmove
  rcases hcases with ⟨hsame, hresult⟩ | ⟨hsame, rest, hremove, hadd⟩
  · exact .inl ⟨eq_of_beq hsame, hresult⟩
  · right
    have hne : source.tokens ≠ path.tokens := ne_of_beq_false hsame
    refine ⟨hne, ?_, value, rest, hfound, hremove, hadd⟩
    -- Every other place lies inside the root.
    intro hnil
    have hpath : path.tokens ≠ [] := fun hroot => hne (hnil.trans hroot.symm)
    have hinside : path.isInside source = true := by
      simp [Pointer.isInside, hnil, List.length_pos_iff.mpr hpath]
    rw [hinside] at houtside
    cases houtside

/-- A move to the root leaves only the value that was moved. -/
theorem lookup_of_move_root (hroot : path.tokens = [])
    (hmove : (document.move source path).outcome = .ok result) :
    document.lookup source = .ok result := by
  rcases move_cases hmove with ⟨hsame, rfl⟩ | ⟨-, -, value, rest, hfound, -, hadd⟩
  · exact lookup_root (hsame.trans hroot) _
  · rw [add_outcome_root hroot] at hadd
    exact hadd ▸ hfound

/-- A move makes no document larger. -/
theorem size_move_le (hordered : document.Ordered)
    (hmove : (document.move source path).outcome = .ok result) : result.size ≤ document.size := by
  rcases move_cases hmove with ⟨-, rfl⟩ | ⟨-, hsource, value, rest, hfound, hremove, hadd⟩
  · exact Nat.le_refl _
  · by_cases hroot : path.tokens = []
    · rw [add_outcome_root hroot] at hadd
      cases hadd
      have hremoved := tally_remove 1 (fun _ => 1) hordered hsource hfound hremove
      exact Nat.le.intro ((Nat.add_comm _ _).trans hremoved)
    · have hmoved := tally_move 1 (fun _ => 1) hordered hsource hroot hfound hremove hadd
      exact Nat.le.intro hmoved

/-- A move neither loses nor duplicates data: the scalars and the nodes of the result, with those of
the member that it displaced, are those of the document. -/
theorem move_conserves (document result : Node) (source path : Pointer)
    (hordered : document.Ordered) (hmove : (document.move source path).outcome = .ok result) :
    (source.tokens ≠ path.tokens → path.tokens ≠ [] →
      ∃ rest, (document.remove source).outcome = .ok rest ∧
        result.leaves + (rest.member? path).elim 0 leaves = document.leaves ∧
        result.size + (rest.member? path).elim 0 size = document.size) ∧
      (path.tokens = [] → document.lookup source = .ok result) ∧
      result.size ≤ document.size := by
  refine ⟨?_, fun hroot => lookup_of_move_root hroot hmove, size_move_le hordered hmove⟩
  intro hne hpath
  rcases move_cases hmove with ⟨hsame, -⟩ | ⟨-, hsource, value, rest, hfound, hremove, hadd⟩
  · exact absurd hsame hne
  · have hleaves := tally_move (0 : Multiset Node) (fun node => {node}) hordered hsource hpath
      hfound hremove hadd
    have hsize := tally_move 1 (fun _ => 1) hordered hsource hpath hfound hremove hadd
    exact ⟨rest, hremove, hleaves, hsize⟩

/-- An element moved onto a member, which it displaces. -/
theorem move_conserves_onto_member :
    let document := object [("a", bool true), ("b", array [null, string "x"])]
    let rest := object [("a", bool true), ("b", array [string "x"])]
    let result := object [("a", null), ("b", array [string "x"])]
    let source : Pointer := ⟨"/b/0", ["b", "0"]⟩
    let path : Pointer := ⟨"/a", ["a"]⟩
    document.Ordered ∧ (document.move source path).outcome = .ok result ∧
      source.tokens ≠ path.tokens ∧ path.tokens ≠ [] ∧
      (document.remove source).outcome = .ok rest ∧ rest.member? path = some (bool true) ∧
      result.leaves + {bool true} = document.leaves ∧ result.size + 1 = document.size := by
  intro document rest result source path
  have hordered : document.Ordered := by
    refine ⟨?_, trivial, ⟨trivial, trivial, trivial⟩, trivial⟩
    exact List.pairwise_pair.mpr (by decide)
  have hmove : (document.move source path).outcome = .ok result := rfl
  have hne : source.tokens ≠ path.tokens := by decide
  have hpath : path.tokens ≠ [] := by decide
  have hmember : rest.member? path = some (bool true) := rfl
  obtain ⟨rest', hremove, hleaves, hsize⟩ :=
    (move_conserves document result source path hordered hmove).1 hne hpath
  have hrest : (document.remove source).outcome = .ok rest := rfl
  rw [hrest] at hremove
  cases hremove
  rw [hmember] at hleaves hsize
  exact ⟨hordered, hmove, hne, hpath, hrest, hmember, hleaves, hsize⟩

end JsonPatch.Node
