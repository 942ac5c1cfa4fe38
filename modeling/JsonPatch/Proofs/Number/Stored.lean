import JsonPatch.Proofs.Conversion

namespace JsonPatch

namespace Numeral

/-- The numeral of a signed word; one that is not negative has no sign. -/
def ofInt64 (i : Int64) : Numeral := if 0 ≤ i then .unsigned i.toUInt64 else .signed i

/-- The numeral of a double, if it is finite. -/
def ofDouble? : Double → Option Numeral
  | .finite x => some (.double (.finite x))
  | _ => none

def toUInt64? : Numeral → Option UInt64
  | .unsigned u => some u
  | _ => none

def toInt64? : Numeral → Option Int64
  | .unsigned u => if u.toNat < 1 <<< 63 then some u.toInt64 else none
  | .signed i => some i
  | .double _ => none

/-- The nearest double. Every numeral has one. -/
def toDouble? : Numeral → Option Double
  | .unsigned u => some (.nearest false u.toNat 1)
  | .signed i => some (.nearest (decide (i < 0)) i.toInt.natAbs 1)
  | .double d => some d

end Numeral

/-- The words of a number. -/
inductive StoredNumber where
  | natural (value : UInt64)
  | negative (value : Int64)
  | float (value : Double)

namespace StoredNumber

/-- Why nothing is stored. -/
inductive Refusal where
  | notFinite (value : Double)
  | outOfRange (value : Numeral)

def ofDouble : Double → Except Refusal StoredNumber
  | .finite x => .ok (.float (.finite x))
  | d => .error (.notFinite d)

def ofUInt64 (u : UInt64) : StoredNumber := .natural u

def ofInt64 (i : Int64) : StoredNumber := if 0 ≤ i then .natural i.toUInt64 else .negative i

def ofInt32 (i : Int32) : StoredNumber := ofInt64 i.toInt64

/-- A numeral is stored as the first of three words that it fits. -/
def ofNumeral (n : Numeral) : Except Refusal StoredNumber :=
  match n.toUInt64? with
  | some u => .ok (ofUInt64 u)
  | none =>
    match n.toInt64? with
    | some i => .ok (ofInt64 i)
    | none =>
      match n.toDouble? with
      | some d => ofDouble d
      | none => .error (.outOfRange n)

/-- The numeral of a number. A double without one falls back to zero. -/
def toNumeral : StoredNumber → Numeral
  | .natural u => .unsigned u
  | .negative i => .ofInt64 i
  | .float d => (Numeral.ofDouble? d).getD (.unsigned 0)

/-- The words that the ways into a document store. -/
inductive Reachable : StoredNumber → Prop where
  | double {d : Double} {s : StoredNumber} : ofDouble d = .ok s → Reachable s
  | unsigned (u : UInt64) : Reachable (ofUInt64 u)
  | signed (i : Int64) : Reachable (ofInt64 i)
  | int32 (i : Int32) : Reachable (ofInt32 i)
  | numeral {n : Numeral} {s : StoredNumber} : ofNumeral n = .ok s → Reachable s

/-- The invariant of stored numbers: a negative word is negative, and a double is finite. -/
def IsProper : StoredNumber → Prop
  | .natural _ => True
  | .negative i => i < 0
  | .float d => ∃ x, d = .finite x

theorem isProper_ofInt64 (i : Int64) : (ofInt64 i).IsProper := by
  unfold ofInt64
  by_cases hi : 0 ≤ i
  · rw [if_pos hi]
    trivial
  · rw [if_neg hi]
    exact Int64.not_le.mp hi

theorem isProper_of_ofDouble {d : Double} {s : StoredNumber} (h : ofDouble d = .ok s) :
    s.IsProper := by
  cases d with
  | finite x =>
    cases h
    exact ⟨x, rfl⟩
  | infinite negative => cases h
  | nan => cases h

theorem Reachable.isProper {s : StoredNumber} (h : s.Reachable) : s.IsProper := by
  cases h with
  | double h => exact isProper_of_ofDouble h
  | unsigned u => trivial
  | signed i => exact isProper_ofInt64 i
  | int32 i => exact isProper_ofInt64 i.toInt64
  | @numeral n _ h =>
    cases n with
    | unsigned u =>
      cases h
      trivial
    | signed i =>
      cases h
      exact isProper_ofInt64 i
    | double d => exact isProper_of_ofDouble h

end StoredNumber

/-- The words that a number is stored in. -/
def Number.stored : Number → StoredNumber
  | .integer i _ _ => if 0 ≤ i then .natural (UInt64.ofNat i.toNat) else .negative (Int64.ofInt i)
  | .double x => .float (.finite x)

namespace StoredNumber

theorem ofInt64_eq_stored (i : Int64) : ofInt64 i = (Number.ofInt64 i).stored := by
  have hsign : 0 ≤ i ↔ 0 ≤ i.toInt := by
    rw [Int64.le_iff_toInt_le, Int64.toInt_zero]
  by_cases hi : 0 ≤ i
  · have hword : i.toUInt64 = UInt64.ofNat i.toInt.toNat := by
      rw [← UInt64.ofNat_toNat (x := i.toUInt64), Int64.toNat_toUInt64_of_le hi]
      rfl
    rw [ofInt64, if_pos hi, Number.ofInt64, Number.stored, if_pos (hsign.mp hi), hword]
  · rw [ofInt64, if_neg hi, Number.ofInt64, Number.stored, if_neg (hi ∘ hsign.mpr),
      Int64.ofInt_toInt]

theorem ofUInt64_eq_stored (u : UInt64) : ofUInt64 u = (Number.ofUInt64 u).stored := by
  have hnonneg : (0 : Int) ≤ u.toNat := Int.natCast_nonneg u.toNat
  rw [ofUInt64, Number.ofUInt64, Number.stored, if_pos hnonneg, Int.toNat_natCast,
    UInt64.ofNat_toNat]

/-- Numerals are stored as the words of their numbers, and are refused where they have no number. -/
theorem ofNumeral_eq_map_stored (n : Numeral) :
    ofNumeral n = (Number.stored <$> Number.ofNumeral n).mapError .notFinite := by
  cases n with
  | unsigned u =>
    change Except.ok (ofUInt64 u) = Except.ok (Number.ofUInt64 u).stored
    rw [ofUInt64_eq_stored]
  | signed i =>
    change Except.ok (ofInt64 i) = Except.ok (Number.ofInt64 i).stored
    rw [ofInt64_eq_stored]
  | double d => cases d <;> rfl

/-- Every numeral is in range of some word: those that are refused are not finite. -/
theorem ofNumeral_ne_outOfRange (n value : Numeral) : ofNumeral n ≠ .error (.outOfRange value) := by
  rw [ofNumeral_eq_map_stored]
  cases Number.ofNumeral n with
  | ok number =>
    intro h
    cases h
  | error d =>
    intro h
    cases h

/-- The numeral of stored words is that of the number. -/
theorem toNumeral_stored (n : Number) : n.stored.toNumeral = n.toNumeral := by
  cases n with
  | double x => rfl
  | integer i low high =>
    by_cases hi : 0 ≤ i
    · simp only [Number.stored, Number.toNumeral, if_pos hi, toNumeral]
    · have hword : (Int64.ofInt i).toInt = i := Int64.toInt_ofInt_of_le low (by omega)
      have hneg : ¬0 ≤ Int64.ofInt i := by
        rw [Int64.le_iff_toInt_le, Int64.toInt_zero, hword]
        exact hi
      simp only [Number.stored, Number.toNumeral, if_neg hi, toNumeral, Numeral.ofInt64, if_neg hneg]

theorem reachable_stored (n : Number) : n.stored.Reachable := by
  have hnumeral : ofNumeral n.toNumeral = .ok n.stored := by
    rw [ofNumeral_eq_map_stored, Number.ofNumeral_toNumeral]
    rfl
  exact .numeral hnumeral

/-- Words that keep the invariant are those of a number. -/
theorem IsProper.exists_stored {s : StoredNumber} (h : s.IsProper) : ∃ n : Number, n.stored = s := by
  cases s with
  | natural u => exact ⟨Number.ofUInt64 u, (ofUInt64_eq_stored u).symm⟩
  | negative i =>
    refine ⟨Number.ofInt64 i, ?_⟩
    rw [← ofInt64_eq_stored, ofInt64, if_neg (Int64.not_le.mpr h)]
  | float d =>
    obtain ⟨x, rfl⟩ := h
    exact ⟨.double x, rfl⟩

/-- No double that is stored falls back to zero. -/
theorem Reachable.isSome_ofDouble? {d : Double} (h : (float d).Reachable) :
    (Numeral.ofDouble? d).isSome = true := by
  obtain ⟨x, rfl⟩ := h.isProper
  rfl

end StoredNumber

end JsonPatch
