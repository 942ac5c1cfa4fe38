import JsonPatch.Json.Token
import JsonPatch.Proofs.Number.Shortest

namespace JsonPatch.Json.Numeral

theorem takeDigits_of_all {ds : List Char} (hne : ds ≠ []) (h : ∀ c ∈ ds, c.isDigit = true) :
    takeDigits ds = some (ds, []) := by
  unfold takeDigits
  rw [List.takeWhile_eq_self_iff.mpr h, List.dropWhile_eq_nil_iff.mpr h]
  cases ds with
  | nil => exact absurd rfl hne
  | cons c cs => rfl

theorem takeWhole_toDigits (n : Nat) :
    takeWhole (Nat.toDigits 10 n) = some (Nat.toDigits 10 n, []) := by
  have hdigits : takeDigits (Nat.toDigits 10 n) = some (Nat.toDigits 10 n, []) :=
    takeDigits_of_all Nat.toDigits_ne_nil fun c hc =>
      Nat.isDigit_of_mem_toDigits (by decide) (by decide) hc
  unfold takeWhole
  rw [hdigits]
  by_cases hn : n = 0
  · subst hn
    rw [Nat.toDigits_zero]
    rfl
  · have hhead := head_toDigits_ne hn
    split
    · rename_i heq
      simp only [Option.some.injEq, Prod.mk.injEq] at heq
      rw [heq.1] at hhead
      exact absurd rfl hhead
    · rfl

theorem parts?_toDigits (n : Nat) :
    parts? (Nat.toDigits 10 n) = some ⟨false, Nat.toDigits 10 n, none, none⟩ := by
  have hhead : ∀ cs, Nat.toDigits 10 n ≠ '-' :: cs := by
    intro cs heq
    have hmem : '-' ∈ Nat.toDigits 10 n := by
      rw [heq]
      exact List.mem_cons_self
    cases Nat.isDigit_of_mem_toDigits (by decide) (by decide) hmem
  have hwhole := takeWhole_toDigits n
  unfold parts?
  split
  rename_i negative unsigned heq
  split at heq
  · rename_i cs hcs
    exact absurd hcs (hhead cs)
  · cases heq
    rw [hwhole]
    rfl

theorem parts?_neg_toDigits (n : Nat) :
    parts? ('-' :: Nat.toDigits 10 n) = some ⟨true, Nat.toDigits 10 n, none, none⟩ := by
  change (takeWhole (Nat.toDigits 10 n)).bind _ = _
  rw [takeWhole_toDigits]
  rfl

theorem read?_unsigned (u : UInt64) :
    read? ((JsonPatch.Numeral.unsigned u).text "e+").toList = some (.unsigned u) := by
  have htext : ((JsonPatch.Numeral.unsigned u).text "e+").toList = Nat.toDigits 10 u.toNat :=
    Nat.toList_repr
  have hlt : u.toNat < 18446744073709551616 := u.toNat_lt
  rw [htext, read?, parts?_toDigits, Option.bind_some, ofParts]
  simp [Nat.ofDigitChars_ten_toDigits, hlt]

theorem text_signed {i : Int64} (h : i < 0) :
    ((JsonPatch.Numeral.signed i).text "e+").toList = '-' :: Nat.toDigits 10 i.toInt.natAbs := by
  have hneg : i.toInt < 0 := Int64.lt_iff_toInt_lt.mp h
  obtain ⟨m, hm⟩ := Int.eq_negSucc_of_lt_zero hneg
  change (Int.repr i.toInt).toList = _
  rw [hm]
  change ("-" ++ Nat.repr (m + 1)).toList = _
  rw [String.toList_append, Nat.toList_repr]
  rfl

theorem read?_signed {i : Int64} (h : i < 0) :
    read? ((JsonPatch.Numeral.signed i).text "e+").toList = some (.signed i) := by
  have hneg : i.toInt < 0 := Int64.lt_iff_toInt_lt.mp h
  have hlow := i.le_toInt
  have hpos : 0 < i.toInt.natAbs := by omega
  have hle : i.toInt.natAbs ≤ 1 <<< 63 := by
    change i.toInt.natAbs ≤ 9223372036854775808
    omega
  have hback : Int64.ofInt (-(i.toInt.natAbs : Int)) = i := by
    have hval : -(i.toInt.natAbs : Int) = i.toInt := by omega
    rw [hval, Int64.ofInt_toInt]
  rw [text_signed h, read?, parts?_neg_toDigits, Option.bind_some, ofParts]
  simp only [Nat.ofDigitChars_ten_toDigits, hback]
  rw [if_neg (by simp), if_pos (by simp only [hpos, hle, decide_true, Option.isNone_none,
    Bool.and_self])]

theorem takeDigits_eq_some {cs ds rest : List Char} (h : takeDigits cs = some (ds, rest)) :
    cs = ds ++ rest ∧ ∀ c ∈ ds, c.isDigit = true := by
  unfold takeDigits at h
  split at h
  · cases h
  · cases h
    exact ⟨List.takeWhile_append_dropWhile.symm, fun c hc => List.mem_takeWhile_imp hc⟩

theorem takeWhole_eq_some {cs ds rest : List Char} (h : takeWhole cs = some (ds, rest)) :
    cs = ds ++ rest ∧ ∀ c ∈ ds, c.isDigit = true := by
  unfold takeWhole at h
  split at h
  · cases h
  · exact takeDigits_eq_some h

theorem takeFraction_eq_none {cs rest : List Char} (h : takeFraction cs = some (none, rest)) :
    cs = rest := by
  unfold takeFraction at h
  split at h
  · obtain ⟨_, _, hpair⟩ := Option.map_eq_some_iff.mp h
    cases hpair
  · cases h
    rfl

theorem takeExponent_eq_none {cs rest : List Char} (h : takeExponent cs = some (none, rest)) :
    cs = rest := by
  unfold takeExponent at h
  split at h
  · cases h
    rfl
  · split at h
    · obtain ⟨_, _, hpair⟩ := Option.map_eq_some_iff.mp h
      cases hpair
    · cases h
      rfl

/-- A text without fraction and exponent is made of digits, perhaps behind a sign. -/
theorem isDigit_of_parts? {text : List Char} {p : Parts} (h : parts? text = some p)
    (hfraction : p.fraction = none) (hexponent : p.exponent = none) :
    ∀ c ∈ text, c.isDigit = true ∨ c = '-' := by
  unfold parts? at h
  split at h
  rename_i negative unsigned hsign
  simp only [Option.bind_eq_bind, Option.bind_eq_some_iff] at h
  obtain ⟨⟨whole, rest⟩, hwhole, ⟨fraction, rest'⟩, hrest, ⟨exponent, rest''⟩, hrest', hp⟩ := h
  dsimp only at hrest hrest' hp
  split at hp
  · rename_i hempty
    cases hp
    dsimp only at hfraction hexponent
    subst hfraction hexponent
    obtain ⟨hunsigned, hdigits⟩ := takeWhole_eq_some hwhole
    have hnil : rest = [] := by
      rw [takeFraction_eq_none hrest, takeExponent_eq_none hrest', List.isEmpty_iff.mp hempty]
    rw [hnil, List.append_nil] at hunsigned
    intro c hc
    split at hsign
    · cases hsign
      rcases List.mem_cons.mp hc with rfl | hc
      · exact .inr rfl
      · exact .inl (hdigits c (hunsigned ▸ hc))
    · cases hsign
      exact .inl (hdigits c (hunsigned ▸ hc))
  · cases hp

/-- What has a fraction or an exponent is read as a double, if it is read. -/
theorem double_of_ofParts {p : Parts} {n : JsonPatch.Numeral}
    (hp : p.fraction ≠ none ∨ p.exponent ≠ none) (h : ofParts p = some n) :
    ∃ y, n = .double (.finite y) := by
  have hplain : (p.fraction.isNone && p.exponent.isNone) = false := by
    rw [Bool.and_eq_false_iff, Option.isNone_eq_false_iff, Option.isNone_eq_false_iff,
      Option.isSome_iff_ne_none, Option.isSome_iff_ne_none]
    exact hp
  unfold ofParts at h
  simp only [hplain, Bool.false_and, Bool.false_eq_true, if_false] at h
  obtain ⟨x, -, hx⟩ := Option.map_eq_some_iff.mp h
  exact ⟨_, hx.symm⟩

/-- What is read can be written. -/
theorem canonical_of_read? {text : List Char} {n : JsonPatch.Numeral} (h : read? text = some n) :
    n.Canonical := by
  obtain ⟨p, -, hn⟩ := Option.bind_eq_some_iff.mp h
  unfold ofParts at hn
  dsimp only at hn
  split at hn
  · cases hn
    trivial
  · split at hn
    · rename_i hsigned
      cases hn
      simp only [Bool.and_eq_true, decide_eq_true_eq] at hsigned
      obtain ⟨⟨-, hpos⟩, hle⟩ := hsigned
      have hbound : Nat.ofDigitChars 10 p.whole 0 ≤ 9223372036854775808 := hle
      have hvalue := Int64.toInt_ofInt_of_le (n := -(Nat.ofDigitChars 10 p.whole 0 : Int))
        (by omega) (by omega)
      change Int64.ofInt (-(Nat.ofDigitChars 10 p.whole 0 : Int)) < 0
      rw [Int64.lt_iff_toInt_lt, hvalue, Int64.toInt_zero]
      omega
    · obtain ⟨x, -, rfl⟩ := Option.map_eq_some_iff.mp hn
      trivial

/-- The text of a double is read as a double, if it is read. -/
theorem double_of_read? {x : Binary64} {n : JsonPatch.Numeral}
    (h : read? (Shortest.text "e+" x).toList = some n) : ∃ y, n = .double (.finite y) := by
  obtain ⟨body, ⟨c, rest, rfl, -, -, hmark⟩, htext⟩ := Shortest.text_isDecimal x
  obtain ⟨p, hp, hn⟩ := Option.bind_eq_some_iff.mp h
  refine double_of_ofParts ?_ hn
  by_contra hnone
  rw [not_or, not_not, not_not] at hnone
  have hdigits := isDigit_of_parts? hp hnone.1 hnone.2
  have hmem : ∀ e ∈ rest, e ∈ (Shortest.text "e+" x).toList := by
    intro e he
    rw [htext]
    split <;> simp [he]
  rcases hmark with hmark | hmark
  · rcases hdigits _ (hmem _ hmark) with hdot | hdot <;> cases hdot
  · rcases hdigits _ (hmem _ hmark) with hdot | hdot <;> cases hdot

theorem isNumeralChar_of_isDigit {c : Char} (h : c.isDigit = true) :
    Scan.isNumeralChar c = true := by
  simp [Scan.isNumeralChar, h]

/-- A number that can be read is written with the characters of numbers, a digit or a sign first. -/
theorem text_isNumeral {n : JsonPatch.Numeral} (h : n.Canonical) :
    ∃ c rest, (n.text "e+").toList = c :: rest ∧ (c.isDigit = true ∨ c = '-') ∧
      ∀ e ∈ rest, Scan.isNumeralChar e = true := by
  have hnatural (k : Nat) : ∃ c rest, Nat.toDigits 10 k = c :: rest ∧ c.isDigit = true ∧
      ∀ e ∈ rest, Scan.isNumeralChar e = true := by
    have hdigits : ∀ c ∈ Nat.toDigits 10 k, c.isDigit = true := fun c hc =>
      Nat.isDigit_of_mem_toDigits (by decide) (by decide) hc
    obtain ⟨c, rest, heq⟩ := List.exists_cons_of_ne_nil (Nat.toDigits_ne_nil (n := k) (b := 10))
    rw [heq] at hdigits
    exact ⟨c, rest, heq, hdigits c List.mem_cons_self, fun e he =>
      isNumeralChar_of_isDigit (hdigits e (List.mem_cons_of_mem c he))⟩
  cases n with
  | unsigned u =>
    obtain ⟨c, rest, heq, hc, hrest⟩ := hnatural u.toNat
    exact ⟨c, rest, (Nat.toList_repr).trans heq, .inl hc, hrest⟩
  | signed i =>
    obtain ⟨c, rest, heq, hc, hrest⟩ := hnatural i.toInt.natAbs
    refine ⟨'-', c :: rest, ?_, .inr rfl, ?_⟩
    · rw [text_signed h, heq]
    · intro e he
      rcases List.mem_cons.mp he with rfl | he
      · exact isNumeralChar_of_isDigit hc
      · exact hrest e he
  | double d =>
    cases d with
    | finite x =>
      obtain ⟨body, ⟨c, rest, rfl, hc, hrest, -⟩, htext⟩ := Shortest.text_isDecimal x
      have hall : ∀ e ∈ rest, Scan.isNumeralChar e = true := by
        intro e he
        rcases hrest e he with he | rfl | rfl | rfl | rfl
        · exact isNumeralChar_of_isDigit he
        · rfl
        · rfl
        · rfl
        · rfl
      change ∃ c rest, (Shortest.text "e+" x).toList = c :: rest ∧ _
      rw [htext]
      split
      · refine ⟨'-', c :: rest, rfl, .inr rfl, ?_⟩
        intro e he
        rcases List.mem_cons.mp he with rfl | he
        · exact isNumeralChar_of_isDigit hc
        · exact hall e he
      · exact ⟨c, rest, rfl, .inl hc, hall⟩
    | infinite negative => exact h.elim
    | nan => exact h.elim

end JsonPatch.Json.Numeral
