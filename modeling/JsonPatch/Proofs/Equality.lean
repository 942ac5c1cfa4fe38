import JsonPatch.Proofs.Meaning
import JsonPatch.Proofs.Number.Stored

namespace JsonPatch

namespace Double

/-- Equality of doubles. What is no number equals nothing, not even itself. -/
def same : Double → Double → Bool
  | .finite x, .finite y => x.same y
  | .infinite negative, .infinite other => negative == other
  | _, _ => false

/-- Whether nothing is left behind the point. A double that is not finite leaves no number there. -/
def isIntegral : Double → Bool
  | .finite x => x.isIntegral
  | _ => false

/-- The integer part, toward zero, clamped to 128-bit signed words. -/
def toInt128 : Double → Int
  | .finite x => x.toInt128
  | .infinite true => -(1 <<< 127)
  | .infinite false => (1 <<< 127) - 1
  | .nan => 0

end Double

namespace StoredNumber

/-- The integer of an integer word. -/
def toInt? : StoredNumber → Option Int
  | .natural u => some u.toNat
  | .negative i => some i.toInt
  | .float _ => none

/-- Whether a double is whole and converts to the integer, if there is one. -/
def floatEqualsInteger (d : Double) (integer : Option Int) : Bool :=
  integer.any fun i => d.isIntegral && d.toInt128 == i

/-- Equality of words. -/
def same : StoredNumber → StoredNumber → Bool
  | .float d, .float e => d.same e
  | .float d, t => floatEqualsInteger d t.toInt?
  | s, .float e => floatEqualsInteger e s.toInt?
  | s, t => s.toInt? == t.toInt?

/-- The rational number that words denote, if they denote one. -/
def value? : StoredNumber → Option Rat
  | .natural u => some (u.toNat : Rat)
  | .negative i => some (i.toInt : Rat)
  | .float (.finite x) => some x.value
  | .float _ => none

end StoredNumber

namespace Number

/-- The words of an integer are integer words, of its own value. -/
theorem toInt?_stored_integer (i : Int) (low : -9223372036854775808 ≤ i)
    (high : i < 18446744073709551616) :
    ((integer i low high).stored = .natural (UInt64.ofNat i.toNat) ∨
      (integer i low high).stored = .negative (Int64.ofInt i)) ∧
      (integer i low high).stored.toInt? = some i := by
  by_cases hi : 0 ≤ i
  · have hword : (UInt64.ofNat i.toNat).toNat = i.toNat :=
      UInt64.toNat_ofNat_of_lt' (by simp only [UInt64.size]; omega)
    have hstored : (integer i low high).stored = .natural (UInt64.ofNat i.toNat) := if_pos hi
    refine ⟨.inl hstored, ?_⟩
    rw [hstored, StoredNumber.toInt?, hword, Int.toNat_of_nonneg hi]
  · have hword : (Int64.ofInt i).toInt = i := Int64.toInt_ofInt_of_le low (by omega)
    have hstored : (integer i low high).stored = .negative (Int64.ofInt i) := if_neg hi
    refine ⟨.inr hstored, ?_⟩
    rw [hstored, StoredNumber.toInt?, hword]

/-- Numbers are equal when their words are. -/
theorem same_stored (a b : Number) : a.stored.same b.stored = a.same b := by
  cases a with
  | double x =>
    cases b with
    | double y => rfl
    | integer j low high =>
      obtain ⟨hkind, hvalue⟩ := toInt?_stored_integer j low high
      have hsame : (double x).stored.same (integer j low high).stored =
          StoredNumber.floatEqualsInteger (.finite x) (integer j low high).stored.toInt? := by
        rcases hkind with h | h <;> rw [h] <;> rfl
      rw [hsame, hvalue]
      rfl
  | integer i low high =>
    obtain ⟨hkind, hvalue⟩ := toInt?_stored_integer i low high
    cases b with
    | double y =>
      have hsame : (integer i low high).stored.same (double y).stored =
          StoredNumber.floatEqualsInteger (.finite y) (integer i low high).stored.toInt? := by
        rcases hkind with h | h <;> rw [h] <;> rfl
      rw [hsame, hvalue]
      rfl
    | integer j low' high' =>
      obtain ⟨hkind', hvalue'⟩ := toInt?_stored_integer j low' high'
      have hsame : (integer i low high).stored.same (integer j low' high').stored =
          ((integer i low high).stored.toInt? == (integer j low' high').stored.toInt?) := by
        rcases hkind with h | h <;> rcases hkind' with h' | h' <;> rw [h, h'] <;> rfl
      rw [hsame, hvalue, hvalue']
      rfl

/-- The words of a number denote its value. -/
theorem value?_stored (n : Number) : n.stored.value? = some n.value := by
  cases n with
  | double x => rfl
  | integer i low high =>
    obtain ⟨hkind, hvalue⟩ := toInt?_stored_integer i low high
    have hcast : (integer i low high).stored.value? =
        (integer i low high).stored.toInt?.map fun j => (j : Rat) := by
      rcases hkind with h | h <;> rw [h] <;> rfl
    rw [hcast, hvalue]
    rfl

end Number

/-- A comparison that is equality of something is an equivalence. -/
theorem equivalence_of_same {α β : Type} {same : α → α → Bool} (meaning : α → β)
    (h : ∀ a b, same a b = true ↔ meaning a = meaning b) :
    Equivalence fun a b => same a b = true where
  refl a := (h a a).mpr rfl
  symm hab := (h _ _).mpr ((h _ _).mp hab).symm
  trans hab hbc := (h _ _).mpr (((h _ _).mp hab).trans ((h _ _).mp hbc))

namespace Number

/-- Numbers, and the words in which they are stored, are equal exactly when they denote the same
rational number. So equality is an equivalence, of numbers and of documents. -/
theorem equality_of_values :
    (∀ s t : StoredNumber, s.Reachable → t.Reachable →
      ∃ p q : Rat, s.value? = some p ∧ t.value? = some q ∧ (s.same t = true ↔ p = q)) ∧
    (∀ a b : Number, a.stored.same b.stored = a.same b ∧
      (a.same b = true ↔ a.value = b.value)) ∧
    Equivalence (fun a b : Number => a.same b = true) ∧
    (∀ a b : Node, a.same b = true ↔ a.meaning = b.meaning) ∧
    Equivalence (fun a b : Node => a.same b = true) := by
  refine ⟨?_, ?_, ?_, Node.same_iff_meaning_eq, ?_⟩
  · intro s t hs ht
    obtain ⟨a, rfl⟩ := hs.isProper.exists_stored
    obtain ⟨b, rfl⟩ := ht.isProper.exists_stored
    refine ⟨a.value, b.value, value?_stored a, value?_stored b, ?_⟩
    rw [same_stored]
    exact same_iff_value_eq a b
  · intro a b
    exact ⟨same_stored a b, same_iff_value_eq a b⟩
  · exact equivalence_of_same value same_iff_value_eq
  · exact equivalence_of_same Node.meaning Node.same_iff_meaning_eq

/-- The negative zero equals the integer zero. A double above all 128-bit words, which is clamped
for the comparison, does not equal the greatest integer, and has another value. -/
theorem equality_of_values_past_clamp :
    let negativeZero : Binary64 := ⟨true, 0, by decide⟩
    let huge : Binary64 := ⟨false, 0x7E00000000000000, by decide⟩
    let zero : StoredNumber := .natural 0
    let greatest : StoredNumber := .natural 18446744073709551615
    (StoredNumber.float (.finite negativeZero)).Reachable ∧ zero.Reachable ∧
    (StoredNumber.float (.finite negativeZero)).same zero = true ∧
    (StoredNumber.float (.finite negativeZero)).value? = zero.value? ∧
    (StoredNumber.float (.finite huge)).Reachable ∧ greatest.Reachable ∧
    huge.toInt128 = (1 <<< 127) - 1 ∧
    (StoredNumber.float (.finite huge)).same greatest = false ∧
    (StoredNumber.float (.finite huge)).value? ≠ greatest.value? := by
  intro negativeZero huge zero greatest
  have hnegative := StoredNumber.Reachable.double
    (show StoredNumber.ofDouble (.finite negativeZero) = .ok _ from rfl)
  have hhuge := StoredNumber.Reachable.double
    (show StoredNumber.ofDouble (.finite huge) = .ok _ from rfl)
  have hzero : zero.Reachable := .unsigned 0
  have hgreatest : greatest.Reachable := .unsigned 18446744073709551615
  have hclamped : huge.toInt128 = (1 <<< 127) - 1 := by decide +kernel
  have hsame : (StoredNumber.float (.finite negativeZero)).same zero = true := by decide +kernel
  have hdiffer : (StoredNumber.float (.finite huge)).same greatest = false := by decide +kernel
  obtain ⟨p, q, hp, hq, hequal⟩ := equality_of_values.1 _ _ hnegative hzero
  obtain ⟨r, s, hr, hs, hunequal⟩ := equality_of_values.1 _ _ hhuge hgreatest
  refine ⟨hnegative, hzero, hsame, ?_, hhuge, hgreatest, hclamped, hdiffer, ?_⟩
  · rw [hp, hq, hequal.mp hsame]
  · rw [hr, hs]
    intro hvalue
    rw [hunequal.mpr (Option.some.inj hvalue)] at hdiffer
    cases hdiffer

end Number

end JsonPatch
