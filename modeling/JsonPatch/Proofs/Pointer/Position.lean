import JsonPatch.Proofs.Diagnostics

namespace JsonPatch

namespace Pointer

theorem isDigit_iff (c : Char) : c.isDigit = true ↔ '0' ≤ c ∧ c ≤ '9' := by
  simp [Char.isDigit, Char.le_def]

/-- The texts that some number is written as in decimal are those of one digit or more, without a
zero in front of others. -/
theorem exists_eq_toString_iff (token : String) :
    (∃ n : Nat, token = toString n) ↔ token ≠ "" ∧ (∀ c ∈ token.toList, '0' ≤ c ∧ c ≤ '9') ∧
      (token.toList.head? = some '0' → token = "0") := by
  have hzero : token.toList = ['0'] ↔ token = "0" := @String.toList_inj token "0"
  rw [← isDecimal_toList_iff]
  simp only [isDecimal, Bool.and_eq_true, Bool.not_eq_true', List.isEmpty_eq_false_iff,
    List.all_eq_true, Bool.or_eq_true, beq_iff_eq, bne_iff_ne, isDigit_iff, ne_eq,
    String.toList_eq_nil_iff, hzero]
  rw [and_assoc, or_comm, ← imp_iff_not_or]

end Pointer

/-- The elements that tokens name, as numbers. -/
theorem elementIndex_map_val_eq_ok_iff (raw token : String) (length i : Nat) :
    (elementIndex raw token length).map Fin.val = .ok i ↔
      token = toString i ∧ i < length ∧ i < 2 ^ 64 := by
  rw [← le_maxLength_iff, and_comm (a := i < length), ← and_assoc,
    ← Pointer.Index.ofToken_eq_position_iff]
  constructor
  · intro h
    cases hindex : elementIndex raw token length with
    | error e =>
      rw [hindex] at h
      cases h
    | ok j =>
      rw [hindex] at h
      cases h
      exact ⟨(elementIndex_eq_ok_iff raw token length j).mp hindex, j.isLt⟩
  · rintro ⟨htoken, hlt⟩
    rw [elementIndex_of_lt raw htoken hlt]
    rfl

/-- Only a malformed token is called invalid, whatever the array is. -/
theorem indexRefusal_invalid_iff (raw token : String) (length slots : Nat) :
    IndexRefusal raw token length slots (.invalidIndex raw token) ↔
      Pointer.Index.ofToken token = .malformed := by
  constructor
  · intro h
    cases h with
    | malformed ht => exact ht
  · exact .malformed

open Pointer in
/-- A position below 2⁶⁴ has one token, the position in decimal, so tokens that differ name
different elements. -/
theorem positions_spelled_once (raw token : String) :
    (∀ i, Index.ofToken token = .position i ↔ token = toString i ∧ i < 2 ^ 64) ∧
    (Index.ofToken token = .pastEnd ↔ token = "-") ∧
    (Index.ofToken token = .tooLarge ↔ ∃ n : Nat, token = toString n ∧ 2 ^ 64 ≤ n) ∧
    (Index.ofToken token = .malformed ↔ token ≠ "-" ∧ ∀ n : Nat, token ≠ toString n) ∧
    ((∃ n : Nat, token = toString n) ↔ token ≠ "" ∧ (∀ c ∈ token.toList, '0' ≤ c ∧ c ≤ '9') ∧
      (token.toList.head? = some '0' → token = "0")) ∧
    ∀ length,
      (elementIndex raw token length = .error (.invalidIndex raw token) ↔
        Index.ofToken token = .malformed) ∧
      (insertionIndex raw token length = .error (.invalidIndex raw token) ↔
        Index.ofToken token = .malformed) ∧
      (Index.ofToken token = .tooLarge →
        elementIndex raw token length = .error (.indexOutOfBounds raw token maxLength) ∧
        insertionIndex raw token length = .error (.indexOutOfBounds raw token maxLength)) ∧
      (∀ i, (elementIndex raw token length).map Fin.val = .ok i ↔
        token = toString i ∧ i < length ∧ i < 2 ^ 64) ∧
      ∀ rawOther other i j, elementIndex raw token length = .ok i →
        elementIndex rawOther other length = .ok j → token ≠ other → i ≠ j := by
  refine ⟨?_, Index.ofToken_eq_pastEnd_iff token, ?_, Index.ofToken_eq_malformed_iff token,
    exists_eq_toString_iff token, ?_⟩
  · intro i
    rw [Index.ofToken_eq_position_iff, le_maxLength_iff]
  · simp only [Index.ofToken_eq_tooLarge_iff, maxLength_lt_iff]
  · intro length
    refine ⟨?_, ?_, ?_, elementIndex_map_val_eq_ok_iff raw token length, ?_⟩
    · rw [elementIndex_eq_error_iff, indexRefusal_invalid_iff]
    · rw [insertionIndex_eq_error_iff, indexRefusal_invalid_iff]
    · intro hlarge
      exact ⟨(elementIndex_eq_error_iff raw token length _).mpr (.tooLarge hlarge),
        (insertionIndex_eq_error_iff raw token length _).mpr (.tooLarge hlarge)⟩
    · rintro rawOther other i j hi hj hne rfl
      have hfirst := (elementIndex_eq_ok_iff raw token length i).mp hi
      have hsecond := (elementIndex_eq_ok_iff rawOther other length i).mp hj
      exact hne (Index.token_inj hfirst hsecond)

open Pointer in
/-- The two numbers at the limit, a zero in front and a digit that is no decimal one, and two
elements of one array. -/
theorem positions_spelled_once_at_word_limit :
    Index.ofToken "18446744073709551615" = .position 18446744073709551615 ∧
      Index.ofToken "18446744073709551616" = .tooLarge ∧
      elementIndex "/18446744073709551616" "18446744073709551616" 3 =
        .error (.indexOutOfBounds "/18446744073709551616" "18446744073709551616" maxLength) ∧
      (¬∃ n : Nat, "01" = toString n) ∧ (¬∃ n : Nat, "٣" = toString n) ∧
      ∃ i j, elementIndex "/1" "1" 3 = .ok i ∧ elementIndex "/2" "2" 3 = .ok j ∧ i ≠ j := by
  have hlimit := (positions_spelled_once "" "18446744073709551615").1 18446744073709551615
  obtain ⟨-, -, hlarge, -, -, harrays⟩ :=
    positions_spelled_once "/18446744073709551616" "18446744073709551616"
  have htooLarge := hlarge.mpr ⟨18446744073709551616, rfl, by decide⟩
  have hzero := (positions_spelled_once "/01" "01").2.2.2.2.1
  have hforeign := (positions_spelled_once "/٣" "٣").2.2.2.2.1
  have hdiffer := ((positions_spelled_once "/1" "1").2.2.2.2.2 3).2.2.2.2
  refine ⟨hlimit.mpr ⟨rfl, by decide⟩, htooLarge, ((harrays 3).2.2.1 htooLarge).1, ?_, ?_, ?_⟩
  · intro hdecimal
    exact absurd ((hzero.mp hdecimal).2.2 rfl) (by decide)
  · intro hdecimal
    have hdigit := (hforeign.mp hdecimal).2.1 '٣' (List.mem_singleton.mpr rfl)
    exact absurd hdigit.2 (by decide)
  · exact ⟨1, 2, rfl, rfl, hdiffer "/2" "2" 1 2 rfl rfl (by decide)⟩

end JsonPatch
