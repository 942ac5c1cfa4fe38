import Mathlib.Data.List.TakeWhile
import JsonPatch.Number.Basic

namespace JsonPatch

theorem toList_pushn (s : String) (c : Char) (n : Nat) :
    (s.pushn c n).toList = s.toList ++ List.replicate n c := by
  rw [String.pushn_eq_repeat_push]
  induction n with
  | zero => simp [Nat.repeat]
  | succ n ih => simp [Nat.repeat, ih, List.replicate_succ']

/-- Only zero is written with a zero in front. -/
theorem head_toDigits_ne {n : Nat} (h : n ≠ 0) : (Nat.toDigits 10 n).head? ≠ some '0' := by
  induction n using Nat.strongRecOn with
  | ind n ih =>
    by_cases hlt : n < 10
    · rw [Nat.toDigits_of_lt_base hlt]
      intro hzero
      have hdigit : n.digitChar = '0' := Option.some.inj hzero
      have hback := Nat.toNat_digitChar_sub_48_of_lt_ten hlt
      rw [hdigit] at hback
      exact h hback.symm
    · have hne : Nat.toDigits 10 (n / 10) ≠ [] := Nat.toDigits_ne_nil
      obtain ⟨c, cs, hcs⟩ := List.exists_cons_of_ne_nil hne
      have hhead := ih (n / 10) (by omega) (by omega)
      rw [Nat.toDigits_of_base_le (by decide) (by omega), hcs]
      rwa [hcs] at hhead

namespace Shortest

/-- Decimal digits, at least one. -/
def Digits.Proper (d : Digits) : Prop := d.digits ≠ [] ∧ ∀ c ∈ d.digits, c.isDigit = true

theorem mem_of_mem_trimZeros {c : Char} {ds : List Char} (h : c ∈ trimZeros ds) : c ∈ ds := by
  have hmem : c ∈ ds.reverse.dropWhile (· == '0') := List.mem_reverse.mp h
  exact List.mem_reverse.mp (List.dropWhile_sublist _ |>.mem hmem)

theorem trimZeros_ne_nil {ds : List Char} (hne : ds ≠ []) (hhead : ds.head? ≠ some '0') :
    trimZeros ds ≠ [] := by
  obtain ⟨c, cs, rfl⟩ := List.exists_cons_of_ne_nil hne
  intro hnil
  have hall : (c :: cs).reverse.dropWhile (· == '0') = [] := List.reverse_eq_nil_iff.mp hnil
  have hc := List.dropWhile_eq_nil_iff.mp hall c (by simp)
  rw [beq_iff_eq] at hc
  exact hhead (by rw [hc]; rfl)

/-- The grid point chosen is not zero, since zero does not round to a number above zero. -/
theorem onGrid_ne_zero {i : Interval} {factor step n : Nat} (hlow : 0 < i.low * factor)
    (h : onGrid i factor step = some n) : n ≠ 0 := by
  have hzero : i.holds factor (0 * step) = false := by
    unfold Interval.holds
    rw [Nat.zero_mul]
    split
    · rw [decide_eq_false (Nat.not_le.mpr hlow), Bool.false_and]
    · rw [decide_eq_false (Nat.not_lt_zero _), Bool.false_and]
  have hlower : i.holds factor (i.mid * factor / step * step) = true →
      i.mid * factor / step ≠ 0 := by
    intro hholds hdiv
    rw [hdiv, hzero] at hholds
    cases hholds
  unfold onGrid at h
  dsimp only at h
  split at h
  · rename_i hdown _
    split at h
    · cases h
      exact hlower hdown
    · cases h
      exact Nat.succ_ne_zero _
  · rename_i hdown _
    cases h
    exact hlower hdown
  · cases h
    exact Nat.succ_ne_zero _
  · cases h

theorem search_proper (i : Interval) (num den : Nat) (leading : Int) (count attempts : Nat)
    (hlow : 0 < i.low) (hnum : 0 < num) : (search i num den leading count attempts).Proper := by
  induction attempts generalizing count with
  | zero =>
    refine ⟨by simp [search], ?_⟩
    intro c hc
    rw [List.mem_singleton.mp hc]
    rfl
  | succ attempts ih =>
    unfold search
    dsimp only
    split
    · rename_i n hn
      have hne : n ≠ 0 := by
        refine onGrid_ne_zero (Nat.mul_pos hlow ?_) hn
        split
        · exact hnum
        · exact Nat.mul_pos hnum (Nat.pow_pos (by decide))
      refine ⟨trimZeros_ne_nil Nat.toDigits_ne_nil (head_toDigits_ne hne), ?_⟩
      intro c hc
      exact Nat.isDigit_of_mem_toDigits (by decide) (by decide) (mem_of_mem_trimZeros hc)
    · exact ih (count + 1)

theorem interval_low_pos {x : Binary64} (h : x.magnitude ≠ 0) : 0 < (interval x).low := by
  have hsignificand : 0 < x.significand := by
    unfold Binary64.significand
    split
    · exact Nat.pos_of_ne_zero h
    · exact Nat.add_pos_left (by decide) _
  unfold interval
  dsimp only
  split <;> omega

theorem digits_proper (x : Binary64) : (digits x).Proper := by
  unfold digits
  split
  · refine ⟨by simp, ?_⟩
    intro c hc
    rw [List.mem_singleton.mp hc]
    rfl
  · rename_i h
    refine search_proper _ _ _ _ _ _ (interval_low_pos h) ?_
    rw [Nat.one_shiftLeft]
    exact Nat.pow_pos (by decide)

/-- A digit, and after it characters of numbers that are not all digits. -/
def IsDecimal (cs : List Char) : Prop :=
  ∃ c rest, cs = c :: rest ∧ c.isDigit = true ∧
    (∀ e ∈ rest, e.isDigit = true ∨ e = '.' ∨ e = 'e' ∨ e = '+' ∨ e = '-') ∧
    ('.' ∈ rest ∨ 'e' ∈ rest)

theorem positional_isDecimal {d : Digits} (h : d.Proper) :
    IsDecimal (positional d).toList := by
  obtain ⟨hne, hdigits⟩ := h
  have hzero (k : Nat) : ∀ c ∈ List.replicate k '0', c.isDigit = true := by
    intro c hc
    rw [List.eq_of_mem_replicate hc]
    rfl
  unfold positional
  split
  · refine ⟨'0', '.' :: (List.replicate ((-d.leading).toNat - 1) '0' ++ d.digits), ?_, rfl, ?_,
      .inl List.mem_cons_self⟩
    · simp [toList_pushn]
    · intro e he
      rcases List.mem_cons.mp he with rfl | he
      · exact .inr (.inl rfl)
      · rcases List.mem_append.mp he with he | he
        · exact .inl (hzero _ e he)
        · exact .inl (hdigits e he)
  · obtain ⟨c, cs, hcs⟩ := List.exists_cons_of_ne_nil hne
    have hc : c.isDigit = true := hdigits c (by simp [hcs])
    have hall : ∀ e ∈ cs, e.isDigit = true := fun e he => hdigits e (by simp [hcs, he])
    dsimp only
    split
    · refine ⟨c, cs ++ (List.replicate (d.leading.toNat + 1 - d.digits.length) '0' ++ ['.', '0']),
        ?_, hc, ?_, .inl (by simp)⟩
      · simp [toList_pushn, hcs]
      · intro e he
        rcases List.mem_append.mp he with he | he
        · exact .inl (hall e he)
        · rcases List.mem_append.mp he with he | he
          · exact .inl (hzero _ e he)
          · rcases List.mem_cons.mp he with rfl | he
            · exact .inr (.inl rfl)
            · rw [List.mem_singleton.mp he]
              exact .inl rfl
    · refine ⟨c, cs.take d.leading.toNat ++ ('.' :: cs.drop d.leading.toNat), ?_, hc, ?_,
        .inl (by simp)⟩
      · simp [hcs]
      · intro e he
        rcases List.mem_append.mp he with he | he
        · exact .inl (hall e (List.mem_of_mem_take he))
        · rcases List.mem_cons.mp he with rfl | he
          · exact .inr (.inl rfl)
          · exact .inl (hall e (List.mem_of_mem_drop he))

theorem scientific_isDecimal {d : Digits} (h : d.Proper) :
    IsDecimal (scientific "e+" d).toList := by
  obtain ⟨hne, hdigits⟩ := h
  obtain ⟨c, cs, hcs⟩ := List.exists_cons_of_ne_nil hne
  have hc : c.isDigit = true := hdigits c (by simp [hcs])
  have hall : ∀ e ∈ cs, e.isDigit = true := fun e he => hdigits e (by simp [hcs, he])
  have hpower : ∀ e ∈ Nat.toDigits 10 d.leading.natAbs, e.isDigit = true := fun e he =>
    Nat.isDigit_of_mem_toDigits (by decide) (by decide) he
  have hmark : ∃ sign, (sign = '+' ∨ sign = '-') ∧
      (if d.leading < 0 then "e-" else "e+").toList = ['e', sign] := by
    split
    · exact ⟨'-', .inr rfl, rfl⟩
    · exact ⟨'+', .inl rfl, rfl⟩
  obtain ⟨sign, hsign, hmark⟩ := hmark
  have hexponent : ∀ e ∈ ['e', sign] ++ Nat.toDigits 10 d.leading.natAbs,
      e.isDigit = true ∨ e = '.' ∨ e = 'e' ∨ e = '+' ∨ e = '-' := by
    intro e he
    rcases List.mem_append.mp he with he | he
    · rcases List.mem_cons.mp he with rfl | he
      · exact .inr (.inr (.inl rfl))
      · rw [List.mem_singleton.mp he]
        exact .inr (.inr (.inr hsign))
    · exact .inl (hpower e he)
  unfold scientific
  dsimp only
  cases cs with
  | nil =>
    refine ⟨c, ['e', sign] ++ Nat.toDigits 10 d.leading.natAbs, ?_, hc, hexponent,
      .inr List.mem_cons_self⟩
    simp [hcs, hmark]
  | cons c' cs =>
    refine ⟨c, '.' :: c' :: cs ++ (['e', sign] ++ Nat.toDigits 10 d.leading.natAbs), ?_, hc, ?_,
      .inl (by simp)⟩
    · simp [hcs, hmark]
    · intro e he
      rcases List.mem_append.mp he with he | he
      · rcases List.mem_cons.mp he with rfl | he
        · exact .inr (.inl rfl)
        · exact .inl (hall e he)
      · exact hexponent e he

/-- The text of a double is a decimal with a fraction or an exponent, perhaps behind a sign. -/
theorem text_isDecimal (x : Binary64) :
    ∃ body, IsDecimal body ∧
      (text "e+" x).toList = if x.negative then '-' :: body else body := by
  have hproper := digits_proper x
  have hbody : IsDecimal (if -5 ≤ (digits x).leading && (digits x).leading ≤ 15
      then positional (digits x) else scientific "e+" (digits x)).toList := by
    split
    · exact positional_isDecimal hproper
    · exact scientific_isDecimal hproper
  refine ⟨_, hbody, ?_⟩
  rw [text]
  cases x.negative <;> simp

end Shortest

end JsonPatch
