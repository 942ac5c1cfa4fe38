import Mathlib.Data.Rat.Cast.Order
import Mathlib.Order.Monotone.Basic
import Mathlib.Tactic.Linarith
import Mathlib.Tactic.Positivity
import Mathlib.Tactic.Ring
import JsonPatch.Node.Basic

namespace JsonPatch

namespace Binary64

/-- The absolute value that magnitude bits stand for, in units of the least subnormal. -/
def unitsOf (magnitude : Nat) : Nat :=
  if magnitude / 2 ^ 52 = 0 then magnitude
  else (2 ^ 52 + magnitude % 2 ^ 52) * 2 ^ (magnitude / 2 ^ 52 - 1)

theorem units_eq (x : Binary64) : x.units = unitsOf x.magnitude := by
  have he : x.exponentField = x.magnitude / 2 ^ 52 := Nat.shiftRight_eq_div_pow _ _
  unfold units significand place unitsOf
  rw [he, Nat.shiftLeft_eq, Nat.shiftLeft_eq, Nat.one_mul]
  by_cases h : x.magnitude / 2 ^ 52 = 0
  · simp only [h, if_true]
    norm_num
  · simp only [h, if_false]

/-- The next magnitude stands for a greater value, also where the exponent steps up. -/
theorem unitsOf_lt_succ (m : Nat) : unitsOf m < unitsOf (m + 1) := by
  unfold unitsOf
  by_cases hzero : m / 2 ^ 52 = 0
  · rw [if_pos hzero]
    by_cases hnext : (m + 1) / 2 ^ 52 = 0
    · rw [if_pos hnext]
      omega
    · rw [if_neg hnext]
      have he : (m + 1) / 2 ^ 52 = 1 := by omega
      rw [he]
      norm_num
      omega
  · have hnext : (m + 1) / 2 ^ 52 ≠ 0 := by omega
    rw [if_neg hzero, if_neg hnext]
    by_cases hcarry : m % 2 ^ 52 + 1 = 2 ^ 52
    · have he : (m + 1) / 2 ^ 52 - 1 = m / 2 ^ 52 - 1 + 1 := by omega
      have hr : (m + 1) % 2 ^ 52 = 0 := by omega
      have hpos : 0 < 2 ^ (m / 2 ^ 52 - 1) := Nat.two_pow_pos _
      have hlt : 2 ^ 52 + m % 2 ^ 52 < 2 ^ 52 * 2 := by omega
      rw [he, hr]
      calc
        (2 ^ 52 + m % 2 ^ 52) * 2 ^ (m / 2 ^ 52 - 1)
          < 2 ^ 52 * 2 * 2 ^ (m / 2 ^ 52 - 1) := Nat.mul_lt_mul_of_pos_right hlt hpos
        _ = (2 ^ 52 + 0) * 2 ^ (m / 2 ^ 52 - 1 + 1) := by ring
    · have he : (m + 1) / 2 ^ 52 = m / 2 ^ 52 := by omega
      have hr : (m + 1) % 2 ^ 52 = m % 2 ^ 52 + 1 := by omega
      rw [he, hr]
      exact Nat.mul_lt_mul_of_pos_right (by omega) (Nat.two_pow_pos _)

theorem unitsOf_strictMono : StrictMono unitsOf := strictMono_nat_of_lt_succ unitsOf_lt_succ

/-- No two magnitudes stand for one value. -/
theorem units_inj (x y : Binary64) : x.units = y.units ↔ x.magnitude = y.magnitude := by
  rw [units_eq, units_eq]
  exact unitsOf_strictMono.injective.eq_iff

theorem units_eq_zero_iff (x : Binary64) : x.units = 0 ↔ x.magnitude = 0 := by
  have hzero : unitsOf 0 = 0 := rfl
  rw [units_eq, ← hzero]
  exact unitsOf_strictMono.injective.eq_iff

/-- The value in units, with its sign. -/
def signedUnits (x : Binary64) : Int := if x.negative then -(x.units : Int) else x.units

theorem unitsPerOne_pos : 0 < unitsPerOne := by
  rw [unitsPerOne, Nat.shiftLeft_eq]
  positivity

theorem value_eq_iff (x y : Binary64) : x.value = y.value ↔ x.signedUnits = y.signedUnits := by
  have hne : unitsPerOne ≠ 0 := unitsPerOne_pos.ne'
  have hcast : (unitsPerOne : Int) ≠ 0 := by exact_mod_cast hne
  change mkRat x.signedUnits unitsPerOne = mkRat y.signedUnits unitsPerOne ↔ _
  rw [Rat.mkRat_eq_iff hne hne]
  exact mul_left_inj' hcast

/-- Doubles compare as equal exactly when their values are. -/
theorem same_iff_value_eq (x y : Binary64) : x.same y = true ↔ x.value = y.value := by
  have hinj := units_inj x y
  have hx := units_eq_zero_iff x
  have hy := units_eq_zero_iff y
  rw [value_eq_iff]
  unfold same signedUnits
  simp only [Bool.and_eq_true, Bool.or_eq_true, beq_iff_eq]
  cases x.negative <;> cases y.negative <;>
    simp only [Bool.false_eq_true, if_false, if_true, reduceCtorEq, true_or, false_or, and_true]
  all_goals omega

theorem value_eq_int_iff (x : Binary64) (i : Int) :
    x.value = i ↔ x.signedUnits = i * unitsPerOne := by
  have hne : unitsPerOne ≠ 0 := unitsPerOne_pos.ne'
  change mkRat x.signedUnits unitsPerOne = i ↔ _
  rw [Rat.mkRat_eq_div, div_eq_iff (by exact_mod_cast hne)]
  exact_mod_cast Iff.rfl

end Binary64

namespace Number

/-- A double and a 64-bit integer compare as equal exactly when their values are. A double past the
clamp of 128 bits has the value of no such integer. -/
theorem doubleEqualsInteger_iff (x : Binary64) (i : Int) (hlow : -9223372036854775808 ≤ i)
    (hhigh : i < 18446744073709551616) : doubleEqualsInteger x i = true ↔ x.value = i := by
  rw [Binary64.value_eq_int_iff]
  have hpos : (0 : Int) < Binary64.unitsPerOne := by exact_mod_cast Binary64.unitsPerOne_pos
  have hdiv : (x.units : Int) = Binary64.unitsPerOne * (x.units / Binary64.unitsPerOne : Nat)
      + (x.units % Binary64.unitsPerOne : Nat) := by
    exact_mod_cast (Nat.div_add_mod x.units Binary64.unitsPerOne).symm
  have hmod : ((x.units % Binary64.unitsPerOne : Nat) : Int) < Binary64.unitsPerOne := by
    exact_mod_cast Nat.mod_lt _ Binary64.unitsPerOne_pos
  unfold doubleEqualsInteger Binary64.isIntegral Binary64.toInt128 Binary64.signedUnits
  simp only [Bool.and_eq_true, beq_iff_eq]
  generalize x.units / Binary64.unitsPerOne = q at *
  generalize x.units % Binary64.unitsPerOne = r at *
  generalize (Binary64.unitsPerOne : Int) = u at *
  rw [hdiv]
  cases x.negative with
  | false =>
    simp only [Bool.false_eq_true, if_false]
    constructor
    · intro h
      obtain ⟨rfl, hq⟩ := h
      have hi : (q : Int) = i := by omega
      rw [hi]
      push_cast
      ring
    · intro h
      have hi : i = q := by
        by_contra hne
        rcases lt_or_gt_of_ne hne with hlt | hgt
        · nlinarith
        · nlinarith
      subst hi
      have hr : (r : Int) = 0 := by linarith
      exact ⟨by exact_mod_cast hr, by omega⟩
  | true =>
    simp only [if_true]
    constructor
    · intro h
      obtain ⟨rfl, hq⟩ := h
      have hi : -(q : Int) = i := by omega
      rw [← hi]
      push_cast
      ring
    · intro h
      have hi : -i = q := by
        by_contra hne
        rcases lt_or_gt_of_ne hne with hlt | hgt
        · nlinarith
        · nlinarith
      have hr : (r : Int) = 0 := by
        have : i = -q := by omega
        subst this
        linarith
      exact ⟨by exact_mod_cast hr, by omega⟩

/-- The rational number that a number denotes. -/
def value : Number → Rat
  | .integer i _ _ => i
  | .double x => x.value

/-- Numbers compare as equal exactly when they denote the same rational number. -/
theorem same_iff_value_eq (a b : Number) : a.same b = true ↔ a.value = b.value := by
  cases a with
  | integer i li hi =>
    cases b with
    | integer j lj hj => simp only [same, value, beq_iff_eq, Int.cast_inj]
    | double y =>
      simp only [same, value, doubleEqualsInteger_iff y i li hi]
      exact eq_comm
  | double x =>
    cases b with
    | integer j lj hj => simp only [same, value, doubleEqualsInteger_iff x j lj hj]
    | double y => simp only [same, value, Binary64.same_iff_value_eq]

end Number

/-- What a document denotes: as the document itself, but with rational numbers. -/
inductive Meaning where
  | null
  | bool (value : Bool)
  | number (value : Rat)
  | string (value : String)
  | array (items : List Meaning)
  | object (members : List (String × Meaning))

namespace Node

mutual

/-- What a document denotes. -/
def meaning : Node → Meaning
  | null => .null
  | bool b => .bool b
  | number n => .number n.value
  | string s => .string s
  | array items => .array (itemMeanings items)
  | object members => .object (memberMeanings members)

/-- `meaning` for the elements of an array. -/
def itemMeanings : List Node → List Meaning
  | [] => []
  | item :: items => meaning item :: itemMeanings items

/-- `meaning` for the members of an object. -/
def memberMeanings : List (String × Node) → List (String × Meaning)
  | [] => []
  | (name, value) :: members => (name, meaning value) :: memberMeanings members

end

theorem itemMeanings_eq_map (items : List Node) : itemMeanings items = items.map meaning := by
  induction items with
  | nil => rfl
  | cons item items ih => rw [itemMeanings, ih, List.map_cons]

mutual

/-- Documents compare as equal exactly when they denote the same. -/
theorem same_iff_meaning_eq (a b : Node) : a.same b = true ↔ a.meaning = b.meaning := by
  cases a with
  | null => cases b <;> simp [same, meaning]
  | bool x => cases b <;> simp [same, meaning]
  | number m => cases b <;> simp [same, meaning, Number.same_iff_value_eq]
  | string s => cases b <;> simp [same, meaning]
  | array xs =>
    cases b with
    | array ys => simp only [same, meaning, Meaning.array.injEq, sameItems_iff xs ys]
    | _ => simp [same, meaning]
  | object xs =>
    cases b with
    | object ys => simp only [same, meaning, Meaning.object.injEq, sameMembers_iff xs ys]
    | _ => simp [same, meaning]

theorem sameItems_iff (xs ys : List Node) :
    sameItems xs ys = true ↔ itemMeanings xs = itemMeanings ys := by
  cases xs with
  | nil => cases ys <;> simp [sameItems, itemMeanings]
  | cons x xs =>
    cases ys with
    | nil => simp [sameItems, itemMeanings]
    | cons y ys =>
      simp only [sameItems, itemMeanings, Bool.and_eq_true, List.cons.injEq,
        same_iff_meaning_eq x y, sameItems_iff xs ys]

theorem sameMembers_iff (xs ys : List (String × Node)) :
    sameMembers xs ys = true ↔ memberMeanings xs = memberMeanings ys := by
  cases xs with
  | nil => cases ys <;> simp [sameMembers, memberMeanings]
  | cons x xs =>
    obtain ⟨m, x⟩ := x
    cases ys with
    | nil => simp [sameMembers, memberMeanings]
    | cons y ys =>
      obtain ⟨n, y⟩ := y
      simp only [sameMembers, memberMeanings, Bool.and_eq_true, beq_iff_eq, List.cons.injEq,
        Prod.mk.injEq, same_iff_meaning_eq x y, sameMembers_iff xs ys]

end

/-- A document equals itself, its numbers too: none of them is without a value. -/
theorem same_self (document : Node) : document.same document = true :=
  (same_iff_meaning_eq document document).mpr rfl

end Node

end JsonPatch
