import Mathlib.Data.List.Induction
import JsonPatch.Proofs.Changes
import JsonPatch.Proofs.Pointer.Spelling

namespace JsonPatch

namespace Pointer

variable {p q : Pointer} {place tokens : List String}

theorem same_iff (p q : Pointer) : p.same q = true ↔ p.tokens = q.tokens := beq_iff_eq

theorem exists_last_of_parent {parent : Pointer} (h : p.parent? = some parent) :
    ∃ last, p.tokens = parent.tokens ++ [last] := by
  rcases Node.tokens_cases p with hroot | ⟨place, last, hplace⟩
  · simp [parent?, hroot] at h
  · rw [Node.parent?_of_concat hplace] at h
    cases h
    exact ⟨last, hplace⟩

theorem rest?_of_cons {token : String} (h : p.tokens = token :: tokens) :
    p.rest? = some (spell tokens) := by
  rw [rest?, h]

/-- The pointer that so many steps of one kind lead to, if all of them can be taken. -/
def iterate? (step : Pointer → Option Pointer) : Nat → Pointer → Option Pointer
  | 0, p => some p
  | k + 1, p => (step p).bind (iterate? step k)

/-- A pointer is one of its ancestors with a token for each of the parents between them. -/
theorem tokens_of_ancestor {k : Nat} {above : Pointer}
    (h : iterate? parent? k p = some above) :
    ∃ tokens, tokens.length = k ∧ p.tokens = above.tokens ++ tokens := by
  induction k generalizing p with
  | zero =>
    cases h
    exact ⟨[], rfl, (List.append_nil _).symm⟩
  | succ k ih =>
    obtain ⟨parent, hparent, habove⟩ := Option.bind_eq_some_iff.mp h
    obtain ⟨last, hlast⟩ := exists_last_of_parent hparent
    obtain ⟨tokens, hlength, htokens⟩ := ih habove
    refine ⟨tokens ++ [last], ?_, ?_⟩
    · rw [List.length_append, hlength, List.length_singleton]
    · rw [hlast, htokens, List.append_assoc]

/-- As many parents up as a pointer has tokens behind some of its first ones, these are left. By
induction from the last token, which is the one that a parent lacks. -/
theorem exists_ancestor (h : p.tokens = place ++ tokens) :
    ∃ above, iterate? parent? tokens.length p = some above ∧ above.tokens = place := by
  induction tokens using List.reverseRecOn generalizing p with
  | nil => exact ⟨p, rfl, by rw [h, List.append_nil]⟩
  | append_singleton tokens last ih =>
    have hlast : p.tokens = (place ++ tokens) ++ [last] := by rw [h, List.append_assoc]
    obtain ⟨above, habove, hplace⟩ := ih (p := spell (place ++ tokens)) rfl
    refine ⟨above, ?_, hplace⟩
    rw [List.length_append, List.length_singleton, iterate?, Node.parent?_of_concat hlast]
    exact habove

theorem tokens_of_descendant {below : Pointer} (h : tokens.foldlM child q = .ok below) :
    below.tokens = q.tokens ++ tokens := by
  induction tokens generalizing q with
  | nil =>
    cases h
    exact (List.append_nil _).symm
  | cons token tokens ih =>
    rw [List.foldlM_cons] at h
    obtain ⟨inner, hinner, hbelow⟩ := bind_eq_ok.mp h
    obtain ⟨-, -, rfl⟩ := (child_eq_ok_iff q inner token).mp hinner
    rw [ih hbelow]
    exact List.append_assoc q.tokens [token] tokens

theorem exists_descendant (hq : ∀ t ∈ q.tokens, t ≠ "") (htokens : ∀ t ∈ tokens, t ≠ "") :
    ∃ below, tokens.foldlM child q = .ok below := by
  induction tokens generalizing q with
  | nil => exact ⟨q, rfl⟩
  | cons token tokens ih =>
    obtain ⟨htoken, hrest⟩ := List.forall_mem_cons.mp htokens
    have hinner := (child_eq_ok_iff q _ token).mpr ⟨hq, htoken, rfl⟩
    have hfull := concat_ne_empty hq htoken
    obtain ⟨below, hbelow⟩ := ih (q := spell (q.tokens ++ [token])) hfull hrest
    refine ⟨below, ?_⟩
    rw [List.foldlM_cons]
    exact bind_eq_ok.mpr ⟨_, hinner, hbelow⟩

/-- A pointer that drops some of its first tokens keeps the others. -/
theorem exists_remainder (h : p.tokens = place ++ tokens) :
    ∃ rest, iterate? rest? place.length p = some rest ∧ rest.tokens = tokens := by
  induction place generalizing p with
  | nil => exact ⟨p, rfl, h⟩
  | cons token place ih =>
    obtain ⟨rest, hrest, htokens⟩ := ih (p := spell (place ++ tokens)) rfl
    refine ⟨rest, ?_, htokens⟩
    rw [List.length_cons, iterate?, rest?_of_cons h]
    exact hrest

/-- A pointer lies inside another if it has its tokens and at least one more. -/
theorem isInside_iff (p q : Pointer) :
    p.isInside q = true ↔ ∃ tokens, tokens ≠ [] ∧ p.tokens = q.tokens ++ tokens := by
  simp only [isInside, Bool.and_eq_true, decide_eq_true_eq, List.isPrefixOf_iff_prefix]
  constructor
  · rintro ⟨hlength, tokens, htokens⟩
    refine ⟨tokens, ?_, htokens.symm⟩
    rintro rfl
    rw [← htokens, List.append_nil] at hlength
    exact Nat.lt_irrefl _ hlength
  · rintro ⟨tokens, hne, htokens⟩
    have hpos := List.length_pos_iff.mpr hne
    have hlength : p.tokens.length = q.tokens.length + tokens.length := by
      rw [htokens, List.length_append]
    exact ⟨by omega, tokens, htokens.symm⟩

theorem isInside_self (p : Pointer) : p.isInside p = false := by
  rw [Bool.eq_false_iff]
  intro h
  obtain ⟨tokens, hne, htokens⟩ := (isInside_iff p p).mp h
  exact hne (List.append_right_eq_self.mp htokens.symm)

theorem isInside_trans {r : Pointer} (hpq : p.isInside q = true) (hqr : q.isInside r = true) :
    p.isInside r = true := by
  rw [isInside_iff] at hpq hqr ⊢
  obtain ⟨back, hback, hp⟩ := hpq
  obtain ⟨middle, -, hq⟩ := hqr
  refine ⟨middle ++ back, List.append_ne_nil_of_right_ne_nil middle hback, ?_⟩
  rw [hp, hq, List.append_assoc]

theorem isInside_iff_ancestor (p q : Pointer) :
    p.isInside q = true ↔
      ∃ k above, 1 ≤ k ∧ iterate? parent? k p = some above ∧ q.same above = true := by
  rw [isInside_iff]
  constructor
  · rintro ⟨tokens, hne, htokens⟩
    obtain ⟨above, habove, hplace⟩ := exists_ancestor htokens
    exact ⟨tokens.length, above, List.length_pos_iff.mpr hne, habove,
      (same_iff q above).mpr hplace.symm⟩
  · rintro ⟨k, above, hk, habove, hsame⟩
    obtain ⟨tokens, hlength, htokens⟩ := tokens_of_ancestor habove
    rw [(same_iff q above).mp hsame]
    exact ⟨tokens, List.length_pos_iff.mp (by omega), htokens⟩

theorem isInside_iff_descendant (hp : ∀ t ∈ p.tokens, t ≠ "") (q : Pointer) :
    p.isInside q = true ↔ ∃ tokens below, tokens ≠ [] ∧ (∀ t ∈ tokens, t ≠ "") ∧
      tokens.foldlM child q = .ok below ∧ p.same below = true := by
  rw [isInside_iff]
  constructor
  · rintro ⟨tokens, hne, htokens⟩
    rw [htokens, List.forall_mem_append] at hp
    obtain ⟨below, hbelow⟩ := exists_descendant hp.1 hp.2
    refine ⟨tokens, below, hne, hp.2, hbelow, ?_⟩
    rw [same_iff, htokens, tokens_of_descendant hbelow]
  · rintro ⟨tokens, below, hne, -, hbelow, hsame⟩
    refine ⟨tokens, hne, ?_⟩
    rw [(same_iff p below).mp hsame, tokens_of_descendant hbelow]

/-- A child has the pointer as its parent. Its text may be another one. -/
theorem exists_child_of_ne (hp : ∀ t ∈ p.tokens, t ≠ "") {token : String} (htoken : token ≠ "") :
    ∃ inner parent, p.child token = .ok inner ∧ inner.parent? = some parent ∧
      parent.same p = true := by
  refine ⟨spell (p.tokens ++ [token]), spell p.tokens, ?_, ?_, ?_⟩
  · exact (child_eq_ok_iff p _ token).mpr ⟨hp, htoken, rfl⟩
  · exact Node.parent?_of_concat rfl
  · exact (same_iff _ p).mpr rfl

end Pointer

namespace Node

/-- What the tokens of one pointer and then those of another lead to. -/
theorem lookup_append_eq_ok_iff {p q rest : Pointer} (h : p.tokens = q.tokens ++ rest.tokens)
    (document part : Node) :
    document.lookup p = .ok part ↔
      ∃ outer, document.lookup q = .ok outer ∧ outer.lookup rest = .ok part := by
  unfold lookup
  rw [h, follow_append, bind_eq_ok]
  constructor
  · rintro ⟨outer, houter, hpart⟩
    exact ⟨outer, follow_raw q.raw houter, follow_raw rest.raw hpart⟩
  · rintro ⟨outer, houter, hpart⟩
    exact ⟨outer, follow_raw p.raw houter, follow_raw p.raw hpart⟩

end Node

namespace Pointer

/-- A pointer lies inside another exactly if the other is among its parents and theirs, and exactly
if it is among the children of the other and theirs. -/
theorem inside_is_ancestry (p q : Pointer) (hp : p.Obtainable) :
    (p.isInside q = true ↔
      ∃ k above, 1 ≤ k ∧ iterate? parent? k p = some above ∧ q.same above = true) ∧
    (p.isInside q = true ↔ ∃ tokens below, tokens ≠ [] ∧ (∀ t ∈ tokens, t ≠ "") ∧
      tokens.foldlM child q = .ok below ∧ p.same below = true) ∧
    p.isInside p = false ∧
    (∀ r, p.isInside q = true → q.isInside r = true → p.isInside r = true) ∧
    (∀ token, token ≠ "" → ∃ inner parent, p.child token = .ok inner ∧
      inner.parent? = some parent ∧ parent.same p = true) ∧
    (p.isInside q = true → ∃ rest, iterate? rest? q.tokens.length p = some rest ∧
      ∀ document part : Node, document.lookup p = .ok part ↔
        ∃ outer, document.lookup q = .ok outer ∧ outer.lookup rest = .ok part) := by
  have hfull := hp.spelled.token_ne_empty
  refine ⟨isInside_iff_ancestor p q, isInside_iff_descendant hfull q, isInside_self p, ?_, ?_, ?_⟩
  · intro r hpq hqr
    exact isInside_trans hpq hqr
  · intro token htoken
    exact exists_child_of_ne hfull htoken
  · intro hinside
    obtain ⟨tokens, -, htokens⟩ := (isInside_iff p q).mp hinside
    obtain ⟨rest, hrest, hleft⟩ := exists_remainder htokens
    refine ⟨rest, hrest, ?_⟩
    intro document part
    exact Node.lookup_append_eq_ok_iff (by rw [htokens, hleft]) document part

/-- A pointer two tokens inside another, of which the texts spell the shared token in two ways, and
one that only begins with the same characters. -/
theorem inside_is_ancestry_of_respelled :
    let inner : Pointer := ⟨"/a~2/b~1c/0", ["a~2", "b/c", "0"]⟩
    let outer : Pointer := ⟨"/a~02", ["a~2"]⟩
    let other : Pointer := ⟨"/a~2~1b", ["a~2/b"]⟩
    let document := Node.object [("a~2", .object [("b/c", .array [.null])])]
    inner.Obtainable ∧ inner.isInside outer = true ∧
      (∃ k above, 1 ≤ k ∧ iterate? parent? k inner = some above ∧ outer.same above = true) ∧
      (∃ rest, iterate? rest? 1 inner = some rest ∧ ∃ part, document.lookup outer = .ok part ∧
        part.lookup rest = .ok .null) ∧
      other.Obtainable ∧
      ¬∃ k above, 1 ≤ k ∧ iterate? parent? k other = some above ∧ outer.same above = true := by
  intro inner outer other document
  have hinner : inner.Obtainable := .parse (show parse "/a~2/b~1c/0" = .ok inner from rfl)
  have hother : other.Obtainable := .parse (show parse "/a~2~1b" = .ok other from rfl)
  have hinside : inner.isInside outer = true := by decide
  obtain ⟨habove, -, -, -, -, hlookup⟩ := inside_is_ancestry inner outer hinner
  obtain ⟨rest, hrest, hparts⟩ := hlookup hinside
  refine ⟨hinner, hinside, habove.mp hinside, ⟨rest, hrest, (hparts document .null).mp rfl⟩,
    hother, ?_⟩
  intro h
  have hwrong := (inside_is_ancestry other outer hother).1.mpr h
  exact absurd hwrong (by decide)

end Pointer

end JsonPatch
