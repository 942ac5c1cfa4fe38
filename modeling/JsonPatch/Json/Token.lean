import JsonPatch.Number.Basic

namespace JsonPatch.Json

namespace Numeral

/-- The parts of a number as written. `exponent` holds the sign and the digits. -/
structure Parts where
  negative : Bool
  whole : List Char
  fraction : Option (List Char)
  exponent : Option (Bool × List Char)
  deriving DecidableEq

/-- Digits, at least one, and what comes after them. -/
def takeDigits (cs : List Char) : Option (List Char × List Char) :=
  match cs.takeWhile Char.isDigit with
  | [] => none
  | ds => some (ds, cs.dropWhile Char.isDigit)

/-- The digits before the point. A zero stands alone. -/
def takeWhole (cs : List Char) : Option (List Char × List Char) :=
  match takeDigits cs with
  | some ('0' :: _ :: _, _) => none
  | other => other

def takeFraction : List Char → Option (Option (List Char) × List Char)
  | '.' :: cs => (takeDigits cs).map fun (ds, rest) => (some ds, rest)
  | cs => some (none, cs)

def takeSignedDigits : List Char → Option ((Bool × List Char) × List Char)
  | '-' :: cs => (takeDigits cs).map fun (ds, rest) => ((true, ds), rest)
  | '+' :: cs => (takeDigits cs).map fun (ds, rest) => ((false, ds), rest)
  | cs => (takeDigits cs).map fun (ds, rest) => ((false, ds), rest)

def takeExponent : List Char → Option (Option (Bool × List Char) × List Char)
  | [] => some (none, [])
  | c :: cs =>
    if c = 'e' || c = 'E' then (takeSignedDigits cs).map fun (e, rest) => (some e, rest)
    else some (none, c :: cs)

/-- Splits a number into its parts, if all of the text is one number. -/
def parts? (text : List Char) : Option Parts := do
  let (negative, unsigned) := match text with
    | '-' :: cs => (true, cs)
    | cs => (false, cs)
  let (whole, rest) ← takeWhole unsigned
  let (fraction, rest) ← takeFraction rest
  let (exponent, rest) ← takeExponent rest
  if rest.isEmpty then some ⟨negative, whole, fraction, exponent⟩ else none

/-- Appends digits to a significand while it fits a 64-bit word; the digits left over come second. -/
def gather (significand : Nat) : List Char → Nat × List Char
  | [] => (significand, [])
  | d :: ds =>
    let next := Nat.ofDigitChars 10 [d] significand
    if next < 1 <<< 64 then gather next ds else (significand, d :: ds)

/-- The largest signed 32-bit word, the limit of exponents. -/
def maxExponent : Nat := (1 <<< 31) - 1

def powerOfTen (e : Nat) : Option Binary64 := (Double.nearest false (Nat.pow 10 e) 1).finite?

/-- Divides by `10 ^ 308` a number of times, or until nothing is left. -/
def lower : Nat → Binary64 → Option Binary64
  | 0, x => some x
  | n + 1, x =>
    if x.magnitude = 0 then some x
    else do lower n (← (Double.quotient x (← powerOfTen 308)).finite?)

/-- The double near `significand * 10 ^ exponent`; none if it is too large. -/
def scale (significand : Nat) (exponent : Int) : Option Binary64 := do
  let x ← (Double.nearest false significand 1).finite?
  if 0 ≤ exponent then
    if exponent ≤ 308 then (Double.product x (← powerOfTen exponent.toNat)).finite?
    else if x.magnitude = 0 then some x
    else none
  else
    let down := (-exponent).toNat
    let rounds := (down - 1) / 308
    let x ← lower rounds x
    (Double.quotient x (← powerOfTen (down - 308 * rounds))).finite?

/-- The magnitude of a number that is not a plain integer of 64 bits, in two roundings: the leading
digits that fit a word, then one scaling by a power of ten. -/
def magnitude (p : Parts) : Option Binary64 := do
  let (leading, dropped) := gather 0 p.whole
  let fraction := p.fraction.getD []
  let (significand, ignored) := gather leading fraction
  let place : Int := (dropped.length : Int) - (fraction.length - ignored.length : Nat)
  match p.exponent with
  | none => scale significand place
  | some (down, ds) =>
    let written := Nat.ofDigitChars 10 ds 0
    if maxExponent < written then
      if significand != 0 && !down then none else some Binary64.zero
    else
      let sum := if down then place - written else place + written
      scale significand (max (-(1 <<< 31)) (min sum maxExponent))

/-- The number that the parts denote; none if it is too large for a double. -/
def ofParts (p : Parts) : Option JsonPatch.Numeral :=
  let n := Nat.ofDigitChars 10 p.whole 0
  let plain := p.fraction.isNone && p.exponent.isNone
  if plain && !p.negative && n < 1 <<< 64 then some (.unsigned (UInt64.ofNat n))
  else if plain && p.negative && 0 < n && n ≤ 1 <<< 63 then some (.signed (Int64.ofInt (-n)))
  else (magnitude p).map fun x => .double (.finite (x.withSign p.negative))

def read? (text : List Char) : Option JsonPatch.Numeral := (parts? text).bind ofParts

end Numeral

inductive Token where
  | beginArray
  | endArray
  | beginObject
  | endObject
  | nameSeparator
  | valueSeparator
  | null
  | bool (value : Bool)
  | number (value : JsonPatch.Numeral)
  | string (value : String)
  deriving DecidableEq

namespace Token

/-- How a character is written inside a string: quotes, backslashes and characters below the space
are escaped, all others stand for themselves. -/
def escapeChar (c : Char) : List Char :=
  if c = '"' then ['\\', '"']
  else if c = '\\' then ['\\', '\\']
  else if c = '\x08' then ['\\', 'b']
  else if c = '\x0c' then ['\\', 'f']
  else if c = '\n' then ['\\', 'n']
  else if c = '\r' then ['\\', 'r']
  else if c = '\t' then ['\\', 't']
  else if c.toNat < 0x20 then
    ['\\', 'u', '0', '0', Nat.digitChar (c.toNat / 16), Nat.digitChar (c.toNat % 16)]
  else [c]

def stringText (s : String) : List Char := '"' :: s.toList.flatMap escapeChar ++ ['"']

def text : Token → List Char
  | .beginArray => ['[']
  | .endArray => [']']
  | .beginObject => ['{']
  | .endObject => ['}']
  | .nameSeparator => [':']
  | .valueSeparator => [',']
  | .null => "null".toList
  | .bool true => "true".toList
  | .bool false => "false".toList
  | .number n => (n.text "e+").toList
  | .string s => stringText s

end Token

/-- Where a text stands between two characters. Characters already read are held in reverse, and
`high` is the first half of a surrogate pair whose second half must follow. -/
inductive Mode where
  | between
  | word (seen : List Char)
  | numeral (seen : List Char)
  | string (seen : List Char) (high : Option Nat)
  | escape (seen : List Char) (high : Option Nat)
  | code (seen : List Char) (high : Option Nat) (count value : Nat)

/-- The tokens read so far, in reverse, and the one being read. -/
structure Scan where
  mode : Mode
  tokens : List Token

namespace Scan

def start : Scan := ⟨.between, []⟩

def emit (s : Scan) (token : Token) : Scan := ⟨.between, token :: s.tokens⟩

/-- The token of a bare word, given in reverse. -/
def wordToken (seen : List Char) : Option Token :=
  if seen.reverse = "null".toList then some .null
  else if seen.reverse = "true".toList then some (.bool true)
  else if seen.reverse = "false".toList then some (.bool false)
  else none

def isNumeralChar (c : Char) : Bool :=
  c.isDigit || c = '-' || c = '+' || c = '.' || c = 'e' || c = 'E'

/-- Takes a character outside of words, numbers and strings. -/
def begin (s : Scan) (c : Char) : Option Scan :=
  if c = ' ' || c = '\t' || c = '\n' || c = '\r' then some s
  else if c = '[' then some (s.emit .beginArray)
  else if c = ']' then some (s.emit .endArray)
  else if c = '{' then some (s.emit .beginObject)
  else if c = '}' then some (s.emit .endObject)
  else if c = ':' then some (s.emit .nameSeparator)
  else if c = ',' then some (s.emit .valueSeparator)
  else if c = '"' then some { s with mode := .string [] none }
  else if c.isDigit || c = '-' then some { s with mode := .numeral [c] }
  else if c.isLower then some { s with mode := .word [c] }
  else none

/-- Ends a word or a number, for which only the next character shows where it ends. -/
def finish (s : Scan) : Option Scan :=
  match s.mode with
  | .between => some s
  | .word seen => (wordToken seen).map s.emit
  | .numeral seen => (Numeral.read? seen.reverse).map fun n => s.emit (.number n)
  | _ => none

def escaped? (c : Char) : Option Char :=
  if c = '"' || c = '\\' || c = '/' then some c
  else if c = 'b' then some '\x08'
  else if c = 'f' then some '\x0c'
  else if c = 'n' then some '\n'
  else if c = 'r' then some '\r'
  else if c = 't' then some '\t'
  else none

def hexDigit? (c : Char) : Option Nat :=
  if c.isDigit then some (c.toNat - '0'.toNat)
  else if 'a' ≤ c ∧ c ≤ 'f' then some (c.toNat - 'a'.toNat + 10)
  else if 'A' ≤ c ∧ c ≤ 'F' then some (c.toNat - 'A'.toNat + 10)
  else none

/-- Goes on in a string after a code unit written in hexadecimal. Surrogates come in pairs, the high
one first. -/
def codeUnit (seen : List Char) (unit : Nat) : Option Nat → Option Mode
  | none =>
    if 0xd800 ≤ unit && unit < 0xdc00 then some (.string seen (some unit))
    else if 0xdc00 ≤ unit && unit < 0xe000 then none
    else some (.string (Char.ofNat unit :: seen) none)
  | some high =>
    if 0xdc00 ≤ unit && unit < 0xe000 then
      let point := 0x10000 + (high - 0xd800) * 0x400 + (unit - 0xdc00)
      some (.string (Char.ofNat point :: seen) none)
    else none

def step (s : Scan) (c : Char) : Option Scan :=
  match s.mode with
  | .between => s.begin c
  | .word seen =>
    if c.isLower then some { s with mode := .word (c :: seen) }
    else s.finish.bind (·.begin c)
  | .numeral seen =>
    if isNumeralChar c then some { s with mode := .numeral (c :: seen) }
    else s.finish.bind (·.begin c)
  | .string seen none =>
    if c = '"' then some (s.emit (.string (String.ofList seen.reverse)))
    else if c = '\\' then some { s with mode := .escape seen none }
    else if c.toNat < 0x20 then none
    else some { s with mode := .string (c :: seen) none }
  | .string seen (some high) =>
    if c = '\\' then some { s with mode := .escape seen (some high) } else none
  | .escape seen high =>
    if c = 'u' then some { s with mode := .code seen high 0 0 }
    else if high.isSome then none
    else (escaped? c).map fun e => { s with mode := .string (e :: seen) none }
  | .code seen high count value => do
    let unit := value * 16 + (← hexDigit? c)
    if count < 3 then some { s with mode := .code seen high (count + 1) unit }
    else (codeUnit seen unit high).map fun mode => { s with mode }

end Scan

def tokenize (text : List Char) : Option (List Token) := do
  let s ← text.foldlM Scan.step Scan.start
  let s ← s.finish
  some s.tokens.reverse

end JsonPatch.Json
