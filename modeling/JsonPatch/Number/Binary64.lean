namespace JsonPatch

/-- A finite binary64 number: its sign, and the exponent and fraction bits read as one number. -/
structure Binary64 where
  negative : Bool
  magnitude : Nat
  magnitude_lt : magnitude < 2047 <<< 52 := by decide
  deriving DecidableEq

namespace Binary64

def exponentField (x : Binary64) : Nat := x.magnitude >>> 52

/-- The fraction bits, under a leading one unless the number is subnormal. -/
def significand (x : Binary64) : Nat :=
  if x.exponentField = 0 then x.magnitude else (1 <<< 52) + x.magnitude % (1 <<< 52)

/-- The place of the last significand bit, counted from that of the least subnormal. -/
def place (x : Binary64) : Nat := x.exponentField - 1

/-- The absolute value in units of the least subnormal, `2 ^ -1074`. -/
def units (x : Binary64) : Nat := x.significand <<< x.place

/-- The unit of `units`, inverted. -/
def unitsPerOne : Nat := 1 <<< 1074

/-- The rational number that is denoted. Both zeros denote zero. -/
def value (x : Binary64) : Rat :=
  mkRat (if x.negative then -(x.units : Int) else x.units) unitsPerOne

/-- The bits as a 64-bit word, the sign on top. -/
def toBits (x : Binary64) : Nat := (if x.negative then 1 <<< 63 else 0) + x.magnitude

def zero : Binary64 := ⟨false, 0, by decide⟩

def withSign (x : Binary64) (negative : Bool) : Binary64 := { x with negative }

/-- Equality of values: the two zeros are equal, and no other two numbers share a value. -/
def same (x y : Binary64) : Bool :=
  x.magnitude == y.magnitude && (x.negative == y.negative || x.magnitude == 0)

def isIntegral (x : Binary64) : Bool := x.units % unitsPerOne == 0

/-- The integer part, toward zero, clamped to 128-bit signed words. -/
def toInt128 (x : Binary64) : Int :=
  let whole : Int := (x.units / unitsPerOne : Nat)
  if x.negative then max (-whole) (-(1 <<< 127)) else min whole ((1 <<< 127) - 1)

end Binary64

/-- Any binary64 number. -/
inductive Double where
  | finite (x : Binary64)
  | infinite (negative : Bool)
  | nan
  deriving DecidableEq

namespace Double

/-- The quotient rounded to the nearest natural number, a half going to the even one. -/
def roundHalfEven (a b : Nat) : Nat :=
  let q := a / b
  let r := a % b
  if b < 2 * r || (2 * r == b && q % 2 == 1) then q + 1 else q

/-- The magnitude bits nearest to `num / den`. A significand that rounds up to `2 ^ 53` carries into
the exponent, which is where it belongs. -/
def nearestMagnitude (num den : Nat) : Nat :=
  let scaled := num * Binary64.unitsPerOne
  let place := (scaled / den).log2 - 52
  (place <<< 52) + roundHalfEven scaled (den <<< place)

/-- The number nearest to `num / den`, for a positive `den`; past the largest one, an infinity. -/
def nearest (negative : Bool) (num den : Nat) : Double :=
  let magnitude := nearestMagnitude num den
  if h : magnitude < 2047 <<< 52 then .finite ⟨negative, magnitude, h⟩ else .infinite negative

/-- The number nearest to `digits * 10 ^ exponent`. Far outside the range of binary64 the power of
ten is not formed. -/
def ofScientific (negative : Bool) (digits : Nat) (exponent : Int) : Double :=
  if digits = 0 then .finite (Binary64.zero.withSign negative)
  else
    let leading : Int := (Nat.toDigits 10 digits).length + exponent
    if leading < -330 then .finite (Binary64.zero.withSign negative)
    else if 310 < leading then .infinite negative
    else if 0 ≤ exponent then nearest negative (digits * Nat.pow 10 exponent.toNat) 1
    else nearest negative digits (Nat.pow 10 (-exponent).toNat)

def product (x y : Binary64) : Double :=
  nearest (x.negative != y.negative) (x.units * y.units) (Binary64.unitsPerOne * Binary64.unitsPerOne)

/-- The rounded quotient, for a divisor other than zero. -/
def quotient (x y : Binary64) : Double :=
  nearest (x.negative != y.negative) x.units y.units

def finite? : Double → Option Binary64
  | .finite x => some x
  | _ => none

def ofBits (word : Nat) : Double :=
  let negative := (word >>> 63) % 2 == 1
  let magnitude := word % (1 <<< 63)
  if h : magnitude < 2047 <<< 52 then .finite ⟨negative, magnitude, h⟩
  else if magnitude = 2047 <<< 52 then .infinite negative
  else .nan

end Double

namespace Shortest

/-- Decimal digits without a trailing zero, and the power of ten of the first of them. -/
structure Digits where
  digits : List Char
  leading : Int
  deriving DecidableEq

/-- The reals that round to a number, in quarters of the step of its last significand bit. Below a
power of two the step is half as wide. The ends belong to it if the significand is even. -/
structure Interval where
  low : Nat
  mid : Nat
  high : Nat
  closed : Bool

/-- The interval of a number; one quarter is worth `2 ^ place / (4 * unitsPerOne)`. -/
def interval (x : Binary64) : Interval :=
  let m := x.significand
  let below := if m = 1 <<< 52 && 1 < x.exponentField then 1 else 2
  ⟨4 * m - below, 4 * m, 4 * m + 2, m % 2 == 0⟩

/-- Whether the interval, scaled by `factor`, holds a point. -/
def Interval.holds (i : Interval) (factor point : Nat) : Bool :=
  if i.closed then i.low * factor ≤ point && point ≤ i.high * factor
  else i.low * factor < point && point < i.high * factor

/-- The better of the value's two neighbours on a decimal grid, if one lies in the interval. The value
is `mid * factor` and the grid the multiples of `step`; a tie goes to the even multiple. -/
def onGrid (i : Interval) (factor step : Nat) : Option Nat :=
  let value := i.mid * factor
  let lower := value / step
  let upper := lower + 1
  match i.holds factor (lower * step), i.holds factor (upper * step) with
  | true, true =>
    let down := value - lower * step
    let up := upper * step - value
    if down < up || (down == up && lower % 2 == 0) then some lower else some upper
  | true, false => some lower
  | false, true => some upper
  | false, false => none

/-- The power of ten of the first digit of `num / den`, found from an estimate not above it. -/
def leadingExponent (num den : Nat) : Int :=
  let digits (n : Nat) : Int := (Nat.toDigits 10 n).length
  let guess := digits num - digits den
  if 0 ≤ guess then
    if den * Nat.pow 10 guess.toNat ≤ num then guess else guess - 1
  else
    if den ≤ num * Nat.pow 10 (-guess).toNat then guess else guess - 1

def trimZeros (ds : List Char) : List Char := (ds.reverse.dropWhile (· == '0')).reverse

/-- Tries grids of ever more digits; `attempts` bounds how many are left. -/
def search (i : Interval) (num den : Nat) (leading : Int) : Nat → Nat → Digits
  | _, 0 => ⟨['0'], 0⟩
  | count, attempts + 1 =>
    let last : Int := leading - count
    let factor := if 0 ≤ last then num else num * Nat.pow 10 (-last).toNat
    let step := if 0 ≤ last then den * Nat.pow 10 last.toNat else den
    match onGrid i factor step with
    | some n =>
      let ds := Nat.toDigits 10 n
      ⟨trimZeros ds, last + (ds.length - 1 : Nat)⟩
    | none => search i num den leading (count + 1) attempts

/-- The digits of a number. Seventeen always suffice. -/
def digits (x : Binary64) : Digits :=
  if x.magnitude = 0 then ⟨['0'], 0⟩
  else
    let num := 1 <<< x.place
    let den := 4 * Binary64.unitsPerOne
    search (interval x) num den (leadingExponent (4 * x.significand * num) den) 0 18

/-- Positional notation for leading powers from `10 ^ -5` to `10 ^ 15`, always with a fraction. -/
def positional (d : Digits) : String :=
  if d.leading < 0 then
    "0." ++ "".pushn '0' ((-d.leading).toNat - 1) ++ String.ofList d.digits
  else
    let whole := d.leading.toNat + 1
    if d.digits.length ≤ whole then
      String.ofList d.digits ++ "".pushn '0' (whole - d.digits.length) ++ ".0"
    else
      String.ofList (d.digits.take whole) ++ "." ++ String.ofList (d.digits.drop whole)

/-- One digit before the point, and no point after a single digit. -/
def scientific (raising : String) (d : Digits) : String :=
  let mantissa := match d.digits with
    | [] => ""
    | [c] => c.toString
    | c :: cs => c.toString ++ "." ++ String.ofList cs
  let mark := if d.leading < 0 then "e-" else raising
  mantissa ++ mark ++ toString d.leading.natAbs

/-- The text of a number. `raising` is the exponent mark before a positive exponent. -/
def text (raising : String) (x : Binary64) : String :=
  let d := digits x
  let body := if -5 ≤ d.leading && d.leading ≤ 15 then positional d else scientific raising d
  if x.negative then "-" ++ body else body

end Shortest

end JsonPatch
