import JsonPatch.Node.Lookup
import JsonPatch.Patch.Basic

namespace JsonPatch

/-- A draw of a value. Some bytes may give none. -/
abbrev Draw (α : Type) := StateT (List UInt8) Option α

namespace Draw

def byteCount (n : Nat) : Nat := if n = 0 then 0 else n.log2 / 8 + 1

/-- Bytes as a number, the weightiest first. -/
def bigEndian (bytes : List UInt8) : Nat := bytes.foldl (fun n byte => 256 * n + byte.toNat) 0

/-- Bytes as a number, the weightiest last. -/
def littleEndian (bytes : List UInt8) : Nat := bigEndian bytes.reverse

/-- A draw that makes a value of the next bytes, of which there may be fewer than asked for. -/
def fromBytes {α : Type} (count : Nat) (f : List UInt8 → α) : Draw α := fun bytes =>
  some (f (bytes.take count), bytes.drop count)

/-- Draws a number from `low` to `high`, with as many bytes as their distance fills. -/
def between (low high : Nat) : Draw Nat :=
  fromBytes (byteCount (high - low)) fun bytes => low + bigEndian bytes % (high - low + 1)

/-- Draws a truth value: the last bit of a byte. -/
def bool : Draw Bool := fromBytes 1 fun bytes => littleEndian bytes % 2 == 1

def int32 : Draw Int32 := fromBytes 4 fun bytes => Int32.ofNat (littleEndian bytes)

def element {α : Type} (items : List α) : Draw α := do
  let i ← between 0 (items.length - 1)
  items[i]?

def several {α : Type} (draw : Draw α) : Nat → Draw (List α)
  | 0 => return []
  | n + 1 => return (← draw) :: (← several draw n)

def printable : Draw Char := return Char.ofNat (← between 0x20 0x7e)

/-- Draws a text of printable characters, its length between two bounds. -/
def text (shortest longest : Nat) : Draw String := do
  let length ← between shortest longest
  return String.ofList (← several printable length)

end Draw

namespace Sample

/-- Most elements or members of a container. -/
def widest : Nat := 6

def longest : Nat := 12

def deepest : Nat := 4

/-- Draws a number: a word, or the quotient of a word and a small number. -/
def number : Draw Number := do
  if ← Draw.bool then return Number.ofInt32 (← Draw.int32)
  else
    let numerator ← Draw.int32
    let denominator ← Draw.between 1 1024
    let ratio := Double.nearest (decide (numerator < 0)) numerator.toInt.natAbs denominator
    return .double (← ratio.finite?)

def string : Draw String := Draw.text 0 longest

def leaf : Draw Node := do
  match ← Draw.between 0 3 with
  | 0 => return .null
  | 1 => return .bool (← Draw.bool)
  | 2 => return .number (← number)
  | _ => return .string (← string)

def member (value : Draw Node) : Draw (String × Node) := return (← string, ← value)

/-- Draws a document around which so many more containers may stand. Of two members with one name
the later one stays. -/
def document : Nat → Draw Node
  | 0 => leaf
  | depth + 1 => do
    match ← Draw.between 0 5 with
    | 4 =>
      let count ← Draw.between 0 widest
      return .array (← Draw.several (document depth) count)
    | 5 =>
      let count ← Draw.between 0 widest
      return .object (Members.ofList (← Draw.several (member (document depth)) count))
    | _ => leaf

def token : Draw String := Draw.text 1 longest

/-- Draws a pointer: to one of the given places three times out of four, or close to it, and
otherwise anywhere. -/
def pointer (places : List Pointer) : Draw Pointer := do
  if (← Draw.between 1 4) ≤ 3 then
    let place ← Draw.element places
    match ← Draw.between 0 3 with
    | 0 => (place.child "-").toOption
    | 1 => (place.child (← token)).toOption
    | _ => return place
  else
    let depth ← Draw.between 0 3
    (Pointer.ofTokens (← Draw.several token depth)).toOption

/-- Draws an operation: its kind, its path, then its value or its source. -/
def operation (places : List Pointer) : Draw Operation := do
  let kind ← Draw.element OperationKind.all
  let path ← pointer places
  match kind with
  | .add => return .add path (← leaf)
  | .remove => return .remove path
  | .replace => return .replace path (← leaf)
  | .move => return .move (← pointer places) path
  | .copy => return .copy (← pointer places) path
  | .test => return .test path (← leaf)

/-- Draws one to eight operations. -/
def operations (document : Node) : Draw (List Operation) := do
  let count ← Draw.between 1 8
  Draw.several (operation document.places) count

end Sample

end JsonPatch
