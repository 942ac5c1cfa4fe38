import Mathlib.Algebra.Group.Nat.Defs
import JsonPatch.Node.Lookup
import JsonPatch.Proofs.Number.Shortest

namespace JsonPatch

theorem elementIndex_of_lt {token : String} {n i : Nat} (raw : String)
    (hi : Pointer.Index.ofToken token = .position i) (hlt : i < n) :
    elementIndex raw token n = .ok ⟨i, hlt⟩ := by
  simp only [elementIndex, hi, dif_pos hlt]

/-- A token names an element exactly when it is the position of one. -/
theorem elementIndex_eq_ok_iff (raw token : String) (n : Nat) (i : Fin n) :
    elementIndex raw token n = .ok i ↔ Pointer.Index.ofToken token = .position i := by
  unfold elementIndex
  cases hi : Pointer.Index.ofToken token with
  | position j =>
    by_cases hj : j < n
    · simp only [dif_pos hj, Except.ok.injEq, Pointer.Index.position.injEq, Fin.ext_iff]
    · simp only [dif_neg hj, reduceCtorEq, false_iff, Pointer.Index.position.injEq]
      have := i.isLt
      omega
  | pastEnd => simp only [reduceCtorEq]
  | tooLarge => simp only [reduceCtorEq]
  | malformed => simp only [reduceCtorEq]

/-- The place where a token puts a new element in an array of a given length. -/
def insertionSlot (token : String) (length : Nat) : Option Nat :=
  match Pointer.Index.ofToken token with
  | .position i => if i ≤ length then some i else none
  | .pastEnd => some length
  | _ => none

theorem insertionIndex_of_slot {token : String} {n i : Nat} (raw : String)
    (h : insertionSlot token n = some i) :
    ∃ hfit, insertionIndex raw token n = .ok ⟨i, hfit⟩ := by
  unfold insertionSlot at h
  unfold insertionIndex
  cases hi : Pointer.Index.ofToken token with
  | position j =>
    simp only [hi, Option.ite_none_right_eq_some, Option.some.injEq] at h
    obtain ⟨hle, rfl⟩ := h
    have hfit : j < n + 1 := Nat.lt_succ_of_le hle
    exact ⟨hfit, by simp only [dif_pos hfit]⟩
  | pastEnd =>
    simp only [hi, Option.some.injEq] at h
    subst h
    exact ⟨Nat.lt_succ_self n, rfl⟩
  | tooLarge => simp [hi] at h
  | malformed => simp [hi] at h

theorem digitChar_of_isDigit {c : Char} (h : c.isDigit = true) :
    c.toNat - 48 < 10 ∧ (c.toNat - 48).digitChar = c := by
  have hbounds : 48 ≤ c.toNat ∧ c.toNat ≤ 57 := by
    simpa [Char.isDigit, UInt32.le_iff_toNat_le] using h
  have hlt : c.toNat - 48 < 10 := by omega
  refine ⟨hlt, ?_⟩
  apply Char.toNat_inj.mp
  rw [Nat.toNat_digitChar_of_lt_ten hlt]
  omega

/-- Digits behind those of a number that is not zero continue them. -/
theorem toDigits_append_ofDigitChars (ds : List Char) (n : Nat) (hn : 0 < n)
    (hdigits : ∀ c ∈ ds, c.isDigit = true) :
    Nat.toDigits 10 n ++ ds = Nat.toDigits 10 (Nat.ofDigitChars 10 ds n) := by
  induction ds generalizing n with
  | nil => rw [List.append_nil, Nat.ofDigitChars_nil]
  | cons c ds ih =>
    obtain ⟨hlt, hchar⟩ := digitChar_of_isDigit (hdigits c List.mem_cons_self)
    have hstep := Nat.toDigits_append_toDigits (b := 10) (by decide) hn hlt
    rw [Nat.toDigits_of_lt_base hlt, hchar] at hstep
    calc Nat.toDigits 10 n ++ c :: ds
        = (Nat.toDigits 10 n ++ [c]) ++ ds := by rw [List.append_assoc, List.singleton_append]
      _ = Nat.toDigits 10 (10 * n + (c.toNat - 48)) ++ ds := by rw [hstep]
      _ = Nat.toDigits 10 (Nat.ofDigitChars 10 ds (10 * n + (c.toNat - 48))) :=
          ih _ (by omega) fun d hd => hdigits d (List.mem_cons_of_mem c hd)
      _ = Nat.toDigits 10 (Nat.ofDigitChars 10 (c :: ds) n) := by
          rw [Nat.ofDigitChars_cons]
          rfl

/-- Digits that do not start with a zero are the ones that their number is written with. -/
theorem toDigits_ofDigitChars {ds : List Char} (hne : ds ≠ [])
    (hdigits : ∀ c ∈ ds, c.isDigit = true) (hhead : ds.head? ≠ some '0') :
    Nat.toDigits 10 (Nat.ofDigitChars 10 ds 0) = ds := by
  cases ds with
  | nil => exact absurd rfl hne
  | cons c ds =>
    obtain ⟨hlt, hchar⟩ := digitChar_of_isDigit (hdigits c List.mem_cons_self)
    have hpos : 0 < c.toNat - 48 := by
      apply Nat.pos_of_ne_zero
      intro hzero
      rw [hzero] at hchar
      exact hhead (by rw [← hchar]; rfl)
    have hcontinued := toDigits_append_ofDigitChars ds (c.toNat - 48) hpos fun d hd =>
      hdigits d (List.mem_cons_of_mem c hd)
    rw [Nat.toDigits_of_lt_base hlt, hchar, List.singleton_append] at hcontinued
    have hfirst : Nat.ofDigitChars 10 (c :: ds) 0 = Nat.ofDigitChars 10 ds (c.toNat - 48) := by
      rw [Nat.ofDigitChars_cons, Nat.mul_zero, Nat.zero_add]
      rfl
    rw [hfirst, ← hcontinued]

/-- The largest length is the last 64-bit word, as a power. -/
theorem le_maxLength_iff (n : Nat) : n ≤ maxLength ↔ n < 2 ^ 64 := by
  change n ≤ 18446744073709551615 ↔ n < 18446744073709551616
  omega

theorem maxLength_lt_iff (n : Nat) : maxLength < n ↔ 2 ^ 64 ≤ n := by
  rw [← Nat.not_le, le_maxLength_iff, Nat.not_lt]

namespace Pointer

theorem isDecimal_toDigits (n : Nat) : isDecimal (Nat.toDigits 10 n) = true := by
  have hdigits : (Nat.toDigits 10 n).all Char.isDigit = true := by
    rw [List.all_eq_true]
    intro c hc
    exact Nat.isDigit_of_mem_toDigits (by decide) (by decide) hc
  have hne : (Nat.toDigits 10 n).isEmpty = false := by
    rw [List.isEmpty_eq_false_iff]
    exact Nat.toDigits_ne_nil
  have hhead : n = 0 ∨ (Nat.toDigits 10 n).head? ≠ some '0' := by
    by_cases hn : n = 0
    · exact .inl hn
    · exact .inr (head_toDigits_ne hn)
  rcases hhead with rfl | hhead
  · rfl
  · simp [isDecimal, hne, hdigits, hhead]

theorem toDigits_ne_dash (n : Nat) : Nat.toDigits 10 n ≠ ['-'] := by
  intro hdash
  have hdecimal := isDecimal_toDigits n
  rw [hdash] at hdecimal
  cases hdecimal

theorem toString_ne_empty (n : Nat) : toString n ≠ "" := by
  intro h
  have hlist : (toString n).toList = Nat.toDigits 10 n := Nat.toList_repr
  rw [h] at hlist
  exact Nat.toDigits_ne_nil hlist.symm

/-- Numbers that are written alike are equal. -/
theorem toString_inj {m n : Nat} (h : toString m = toString n) : m = n := by
  have hdigits : Nat.toDigits 10 m = Nat.toDigits 10 n := by
    rw [← Nat.toList_repr, ← Nat.toList_repr]
    exact congrArg String.toList h
  rw [← Nat.ofDigitChars_ten_toDigits (n := m), hdigits, Nat.ofDigitChars_ten_toDigits]

/-- A decimal is what its number is written as. -/
theorem toDigits_of_isDecimal {cs : List Char} (h : isDecimal cs = true) :
    Nat.toDigits 10 (Nat.ofDigitChars 10 cs 0) = cs := by
  simp only [isDecimal, Bool.and_eq_true, Bool.not_eq_true', List.isEmpty_eq_false_iff,
    List.all_eq_true, Bool.or_eq_true, beq_iff_eq, bne_iff_ne] at h
  obtain ⟨⟨hne, hdigits⟩, rfl | hhead⟩ := h
  · rfl
  · exact toDigits_ofDigitChars hne hdigits hhead

theorem eq_toString_iff (token : String) (n : Nat) :
    token = toString n ↔ token.toList = Nat.toDigits 10 n := by
  rw [Nat.toString_eq_ofList_toDigits, ← String.toList_inj, String.toList_ofList]

theorem isDecimal_toList_iff (token : String) :
    isDecimal token.toList = true ↔ ∃ n : Nat, token = toString n := by
  constructor
  · intro h
    exact ⟨_, (eq_toString_iff token _).mpr (toDigits_of_isDecimal h).symm⟩
  · rintro ⟨n, hn⟩
    rw [(eq_toString_iff token n).mp hn]
    exact isDecimal_toDigits n

/-- A number in decimal is a position if it fits a 64-bit word. -/
theorem Index.ofToken_toString (n : Nat) :
    Index.ofToken (toString n) = if n < 2 ^ 64 then .position n else .tooLarge := by
  have hlist : (toString n).toList = Nat.toDigits 10 n := Nat.toList_repr
  unfold Index.ofToken
  simp only [hlist, if_neg (toDigits_ne_dash n), isDecimal_toDigits, if_true,
    Nat.ofDigitChars_ten_toDigits]
  rfl

/-- A token that is neither the dash nor a number in decimal is malformed. -/
theorem Index.ofToken_cases (token : String) :
    token = "-" ∨ (∃ n : Nat, token = toString n) ∨ Index.ofToken token = .malformed := by
  by_cases hdash : token.toList = ['-']
  · exact .inl (String.toList_inj.mp hdash)
  · by_cases hdecimal : isDecimal token.toList = true
    · exact .inr (.inl ((isDecimal_toList_iff token).mp hdecimal))
    · exact .inr (.inr (by simp only [Index.ofToken, if_neg hdash, if_neg hdecimal]))

/-- The token of a position is the position in decimal. -/
theorem Index.ofToken_eq_position_iff (token : String) (i : Nat) :
    Index.ofToken token = .position i ↔ token = toString i ∧ i ≤ maxLength := by
  rw [le_maxLength_iff]
  constructor
  · intro h
    rcases ofToken_cases token with rfl | ⟨n, rfl⟩ | hmalformed
    · cases h
    · rw [ofToken_toString] at h
      split at h
      · rename_i hn
        cases h
        exact ⟨rfl, hn⟩
      · cases h
    · rw [h] at hmalformed
      cases hmalformed
  · rintro ⟨rfl, hi⟩
    rw [ofToken_toString, if_pos hi]

/-- Two tokens of one position are the same token. -/
theorem Index.token_inj {first second : String} {i : Nat}
    (hfirst : Index.ofToken first = .position i) (hsecond : Index.ofToken second = .position i) :
    first = second := by
  rw [((Index.ofToken_eq_position_iff first i).mp hfirst).1,
    ((Index.ofToken_eq_position_iff second i).mp hsecond).1]

theorem Index.ofToken_eq_pastEnd_iff (token : String) :
    Index.ofToken token = .pastEnd ↔ token = "-" := by
  constructor
  · intro h
    rcases ofToken_cases token with hdash | ⟨n, rfl⟩ | hmalformed
    · exact hdash
    · rw [ofToken_toString] at h
      split at h <;> cases h
    · rw [h] at hmalformed
      cases hmalformed
  · rintro rfl
    rfl

theorem Index.ofToken_eq_tooLarge_iff (token : String) :
    Index.ofToken token = .tooLarge ↔ ∃ n : Nat, token = toString n ∧ maxLength < n := by
  simp only [maxLength_lt_iff]
  constructor
  · intro h
    rcases ofToken_cases token with rfl | ⟨n, rfl⟩ | hmalformed
    · cases h
    · rw [ofToken_toString] at h
      split at h
      · cases h
      · rename_i hn
        exact ⟨n, rfl, Nat.le_of_not_lt hn⟩
    · rw [h] at hmalformed
      cases hmalformed
  · rintro ⟨n, rfl, hn⟩
    rw [ofToken_toString, if_neg (Nat.not_lt.mpr hn)]

/-- The malformed tokens are all but the dash and the numbers in decimal. -/
theorem Index.ofToken_eq_malformed_iff (token : String) :
    Index.ofToken token = .malformed ↔ token ≠ "-" ∧ ∀ n : Nat, token ≠ toString n := by
  constructor
  · intro h
    constructor
    · rintro rfl
      cases h
    · rintro n rfl
      rw [ofToken_toString] at h
      split at h <;> cases h
  · rintro ⟨hdash, hdecimal⟩
    rcases ofToken_cases token with heq | ⟨n, hn⟩ | hmalformed
    · exact absurd heq hdash
    · exact absurd hn (hdecimal n)
    · exact hmalformed

end Pointer

end JsonPatch
