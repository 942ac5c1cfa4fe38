import JsonPatch.Number.Binary64

namespace JsonPatch

/-- A number read from a text. A `signed` one is negative, since others fit `unsigned`. -/
inductive Numeral where
  | unsigned (value : UInt64)
  | signed (value : Int64)
  | double (value : Double)
  deriving DecidableEq

namespace Numeral

/-- The words and doubles that a text in JSON can denote. -/
def Canonical : Numeral → Prop
  | .unsigned _ => True
  | .signed i => i < 0
  | .double (.finite _) => True
  | .double _ => False

/-- The text of a double, `raising` being the exponent mark before a positive exponent. -/
def doubleText (raising : String) : Double → String
  | .finite x => Shortest.text raising x
  | .infinite false => ".inf"
  | .infinite true => "-.inf"
  | .nan => ".nan"

/-- The text of a number: integers in decimal, doubles by their shortest digits. -/
def text (raising : String) : Numeral → String
  | .unsigned u => toString u.toNat
  | .signed i => toString i.toInt
  | .double d => doubleText raising d

end Numeral

/-- A number of a document. Integers and doubles of one value are equal but stay apart in print. -/
inductive Number where
  | integer (value : Int) (low : -9223372036854775808 ≤ value)
      (high : value < 18446744073709551616)
  | double (value : Binary64)
  deriving DecidableEq

namespace Number

def ofInt32 (i : Int32) : Number :=
  .integer i.toInt (by have := i.le_toInt; omega) (by have := i.toInt_lt; omega)

def ofInt64 (i : Int64) : Number :=
  .integer i.toInt (by have := i.le_toInt; omega) (by have := i.toInt_lt; omega)

def ofUInt64 (u : UInt64) : Number :=
  .integer u.toNat (by omega) (by have := u.toNat_lt; omega)

/-- A double, unless it is not finite: then the double itself is the fault. -/
def ofDouble : Double → Except Double Number
  | .finite x => .ok (.double x)
  | d => .error d

/-- The number of a numeral, with no loss of precision. -/
def ofNumeral : Numeral → Except Double Number
  | .unsigned u => .ok (ofUInt64 u)
  | .signed i => .ok (ofInt64 i)
  | .double d => ofDouble d

/-- The numeral of a number, of the same kind. -/
def toNumeral : Number → Numeral
  | .integer i _ _ => if 0 ≤ i then .unsigned (UInt64.ofNat i.toNat) else .signed (Int64.ofInt i)
  | .double x => .double (.finite x)

def isInteger : Number → Bool
  | .integer .. => true
  | .double _ => false

/-- The value as a 64-bit signed integer, if it is an integer in that range. -/
def toInt64? : Number → Option Int
  | .integer i _ _ => if i < 1 <<< 63 then some i else none
  | .double _ => none

/-- The value as a 64-bit unsigned integer, if it is an integer and not negative. -/
def toUInt64? : Number → Option Nat
  | .integer i _ _ => if 0 ≤ i then some i.toNat else none
  | .double _ => none

def toDouble : Number → Double
  | .integer i _ _ => .nearest (decide (i < 0)) i.natAbs 1
  | .double x => .finite x

/-- Whether a double has exactly the value of an integer of at most 65 bits. -/
def doubleEqualsInteger (x : Binary64) (i : Int) : Bool := x.isIntegral && x.toInt128 == i

/-- Equality of values. -/
def same : Number → Number → Bool
  | .double x, .double y => x.same y
  | .double x, .integer i _ _ => doubleEqualsInteger x i
  | .integer i _ _, .double x => doubleEqualsInteger x i
  | .integer i _ _, .integer j _ _ => i == j

def text (n : Number) : String := n.toNumeral.text "e+"

end Number

end JsonPatch
