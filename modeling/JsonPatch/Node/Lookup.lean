import JsonPatch.Node.Basic
import JsonPatch.Pointer.Wire

namespace JsonPatch

namespace Pointer

/-- What a token says about an array: a position, the place behind the last element, a position too
large for a 64-bit word, or nothing. -/
inductive Index where
  | position (i : Nat)
  | pastEnd
  | tooLarge
  | malformed
  deriving DecidableEq

/-- Whether a text is a number in decimal, spelled without needless zeros. -/
def isDecimal (cs : List Char) : Bool :=
  !cs.isEmpty && cs.all Char.isDigit && (cs == ['0'] || cs.head? != some '0')

def Index.ofToken (token : String) : Index :=
  let cs := token.toList
  if cs = ['-'] then .pastEnd
  else if isDecimal cs then
    let i := Nat.ofDigitChars 10 cs 0
    if i < 1 <<< 64 then .position i else .tooLarge
  else .malformed

end Pointer

/-- Why a pointer does not lead to a place that an operation can use. All name the pointer by its
text. -/
inductive LocationError where
  | indexOutOfBounds (pointer token : String) (length : Nat)
  | invalidIndex (pointer token : String)
  | missingMember (pointer name : String)
  | notAContainer (pointer kind : String)
  | insideSource (pointer source : String)
  deriving DecidableEq

def LocationError.message : LocationError → String
  | .indexOutOfBounds pointer token length =>
    "array index " ++ token ++ " out of bounds at " ++ Text.quoted pointer
      ++ " (length " ++ toString length ++ ")"
  | .invalidIndex pointer token =>
    "invalid array index " ++ Text.quoted token ++ " at " ++ Text.quoted pointer
  | .missingMember pointer name =>
    "invalid JSON at " ++ Text.quoted pointer ++ ": member " ++ Text.quoted name
      ++ " does not exist"
  | .notAContainer pointer kind =>
    "invalid JSON at " ++ Text.quoted pointer ++ ": found " ++ kind
      ++ ": expected JSON object or array"
  | .insideSource pointer source =>
    "invalid JSON at " ++ Text.quoted pointer ++ ": cannot move " ++ Text.quoted source
      ++ " into one of its own children"

/-- The length reported for an index that does not fit a 64-bit word. -/
def maxLength : Nat := (1 <<< 64) - 1

/-- The element that a token names in an array of a given length. -/
def elementIndex (raw token : String) (length : Nat) : Except LocationError (Fin length) :=
  match Pointer.Index.ofToken token with
  | .position i => if h : i < length then .ok ⟨i, h⟩ else .error (.indexOutOfBounds raw token length)
  | .pastEnd => .error (.indexOutOfBounds raw token length)
  | .tooLarge => .error (.indexOutOfBounds raw token maxLength)
  | .malformed => .error (.invalidIndex raw token)

/-- The place where a token puts a new element in an array of a given length; the place behind the
last element is one of them. -/
def insertionIndex (raw token : String) (length : Nat) :
    Except LocationError (Fin (length + 1)) :=
  match Pointer.Index.ofToken token with
  | .position i =>
    if h : i < length + 1 then .ok ⟨i, h⟩ else .error (.indexOutOfBounds raw token length)
  | .pastEnd => .ok ⟨length, Nat.lt_succ_self length⟩
  | .tooLarge => .error (.indexOutOfBounds raw token maxLength)
  | .malformed => .error (.invalidIndex raw token)

namespace Node

/-- The part that a token names directly inside a node. -/
def child (raw token : String) : Node → Except LocationError Node
  | object members =>
    match members.lookup token with
    | some value => .ok value
    | none => .error (.missingMember raw token)
  | array items => do
    let i ← elementIndex raw token items.length
    .ok items[i]
  | node => .error (.notAContainer raw node.kindName)

/-- The part that a list of tokens leads to. `raw` names the pointer in faults. -/
def follow (raw : String) : List String → Node → Except LocationError Node
  | [], node => .ok node
  | token :: tokens, node => do follow raw tokens (← child raw token node)

/-- The part that a pointer leads to. -/
def lookup (node : Node) (pointer : Pointer) : Except LocationError Node :=
  follow pointer.raw pointer.tokens node

mutual

/-- The places in a part of a document that stands at a place: that place, then those inside it. A
member with an empty name is at no place. -/
def placesFrom (place : Pointer) : Node → List Pointer
  | array items => place :: itemPlaces place 0 items
  | object members => place :: memberPlaces place members
  | _ => [place]

/-- `placesFrom` for the elements of an array from an index on. -/
def itemPlaces (place : Pointer) (index : Nat) : List Node → List Pointer
  | [] => []
  | item :: items =>
    let inside := match place.child (toString index) with
      | .ok inner => placesFrom inner item
      | .error _ => []
    inside ++ itemPlaces place (index + 1) items

def memberPlaces (place : Pointer) : List (String × Node) → List Pointer
  | [] => []
  | (name, value) :: members =>
    let inside := match place.child name with
      | .ok inner => placesFrom inner value
      | .error _ => []
    inside ++ memberPlaces place members

end

/-- The places in a document, each before those inside it. -/
def places (document : Node) : List Pointer := placesFrom Pointer.root document

end Node

end JsonPatch
