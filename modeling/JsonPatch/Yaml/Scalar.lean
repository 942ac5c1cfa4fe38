import JsonPatch.Yaml.Basic

namespace JsonPatch.Yaml.Scalar

def isNull (text : String) : Bool := ["null", "Null", "NULL", "~"].contains text

def bool? (text : String) : Option Bool :=
  if ["true", "True", "TRUE"].contains text then some true
  else if ["false", "False", "FALSE"].contains text then some false
  else none

def unsigned : List Char → List Char
  | '-' :: cs | '+' :: cs => cs
  | cs => cs

/-- Whether a text consists of digits but is no number, because it has zeros to spare. -/
def isPadded (cs : List Char) : Bool :=
  let ds := unsigned cs
  1 < ds.length && ds.head? == some '0' && ds.all Char.isDigit

/-- The value of a digit, letters counting on from ten. -/
def digit? (c : Char) : Option Nat :=
  if c.isDigit then some (c.toNat - '0'.toNat)
  else if c.isLower then some (c.toNat - 'a'.toNat + 10)
  else if c.isUpper then some (c.toNat - 'A'.toNat + 10)
  else none

/-- The number that digits of a base spell, at least one. -/
def natural? (base : Nat) (cs : List Char) : Option Nat :=
  if cs.isEmpty then none
  else cs.foldlM (fun n c => do
    let d ← digit? c
    if d < base then some (n * base + d) else none) 0

/-- The base that a mark announces, and the digits behind the mark. -/
def based? : List Char → Option (Nat × List Char)
  | '0' :: 'x' :: cs => some (16, cs)
  | '0' :: 'o' :: cs => some (8, cs)
  | '0' :: 'b' :: cs => some (2, cs)
  | _ => none

/-- The integer that a text spells: a sign, a base and digits, or decimal digits without zeros to
spare. -/
def integer? (cs : List Char) : Option Int :=
  let negative := cs.head? == some '-'
  let body := unsigned cs
  let magnitude := match based? body with
    | some (base, ds) => natural? base ds
    | none => if isPadded body then none else natural? 10 body
  magnitude.map fun n => if negative then -(n : Int) else n

def takeDigits (cs : List Char) : List Char × List Char :=
  (cs.takeWhile Char.isDigit, cs.dropWhile Char.isDigit)

/-- The exponent that ends a number, zero if there is none. -/
def exponent? : List Char → Option Int
  | [] => some 0
  | c :: cs =>
    if c = 'e' || c = 'E' then
      let magnitude := (natural? 10 (unsigned cs)).map Int.ofNat
      if cs.head? == some '-' then magnitude.map (- ·) else magnitude
    else none

/-- The double that a decimal text spells, correctly rounded. A digit on one side of the point is
enough. -/
def decimal? (negative : Bool) (cs : List Char) : Option Double := do
  let (whole, rest) := takeDigits cs
  let (fraction, rest) := match rest with
    | '.' :: cs => takeDigits cs
    | cs => ([], cs)
  if whole.isEmpty && fraction.isEmpty then none
  else
    let exponent ← exponent? rest
    let digits := Nat.ofDigitChars 10 (whole ++ fraction) 0
    return Double.ofScientific negative digits (exponent - fraction.length)

/-- The double that a text spells. Decimal texts too large for a finite double spell none. -/
def double? (cs : List Char) : Option Double :=
  let negative := cs.head? == some '-'
  let body := unsigned cs
  if [".inf", ".Inf", ".INF"].contains (String.ofList body) then some (.infinite negative)
  else if [".nan", ".NaN", ".NAN"].contains (String.ofList cs) then some .nan
  else match decimal? negative body with
    | some (.finite x) => some (.finite x)
    | _ => none

/-- The numeral of an integer: a word, or none for one that fits no 64-bit word. -/
def numeral? (i : Int) : Option Numeral :=
  if 0 ≤ i && i < 1 <<< 64 then some (.unsigned (UInt64.ofNat i.toNat))
  else if i < 0 && -(1 <<< 63) ≤ i then some (.signed (Int64.ofInt i))
  else none

/-- Whether an integer fits a 128-bit word. Those that do are never read as doubles. -/
def fitsWide (i : Int) : Bool := -(1 <<< 127) ≤ i && i < 1 <<< 128

/-- How a text reads as an integer: not at all, as one that no document can hold, or as a number. -/
inductive IntegerReading where
  | no
  | tooWide
  | number (value : Numeral)

def readInteger (cs : List Char) : IntegerReading :=
  match integer? cs with
  | none => .no
  | some i =>
    match numeral? i with
    | some n => .number n
    | none => if fitsWide i then .tooWide else .no

/-- The value of a plain scalar. The one fault is an integer that is too wide. -/
def plain? (text : String) : Option Yaml :=
  let cs := text.toList
  if cs.isEmpty || isNull text then some .null
  else match bool? text with
    | some b => some (.bool b)
    | none =>
      match readInteger cs with
      | .number n => some (.number n)
      | .tooWide => none
      | .no =>
        if isPadded cs then some (.string text)
        else match double? cs with
          | some d => some (.number (.double d))
          | none => some (.string text)

/-- The value of a scalar with a tag of the YAML types; the text must fit the type. Other tags, also
those without a text, make strings. -/
def tagged? (tag : Option String) (text : String) : Option Yaml :=
  if tag = some "tag:yaml.org,2002:bool" then (bool? text).map .bool
  else if tag = some "tag:yaml.org,2002:int" then
    match readInteger text.toList with
    | .number n => some (.number n)
    | _ => none
  else if tag = some "tag:yaml.org,2002:float" then
    (double? text.toList).map fun d => .number (.double d)
  else if tag = some "tag:yaml.org,2002:null" then (if isNull text then some .null else none)
  else some (.string text)

end JsonPatch.Yaml.Scalar
