import JsonPatch.Node.Conversion
import JsonPatch.Pointer.Wire

namespace JsonPatch

inductive OperationKind where
  | add
  | remove
  | replace
  | move
  | copy
  | test
  deriving DecidableEq

namespace OperationKind

def all : List OperationKind := [add, remove, replace, move, copy, test]

def name : OperationKind → String
  | add => "add"
  | remove => "remove"
  | replace => "replace"
  | move => "move"
  | copy => "copy"
  | test => "test"

def ofName? (name : String) : Option OperationKind := all.find? fun kind => kind.name == name

/-- Whether the kind reads its value from another place. -/
def requiresSource : OperationKind → Bool
  | move | copy => true
  | _ => false

/-- Whether the kind must bring a value other than null. -/
def requiresValue : OperationKind → Bool
  | add | replace => true
  | _ => false

def carriesValue : OperationKind → Bool
  | add | replace | test => true
  | _ => false

end OperationKind

/-- One step of a patch. `source` is where `move` and `copy` take their value from. -/
inductive Operation where
  | add (path : Pointer) (value : Node)
  | remove (path : Pointer)
  | replace (path : Pointer) (value : Node)
  | move (source path : Pointer)
  | copy (source path : Pointer)
  | test (path : Pointer) (expected : Node)

namespace Operation

def kind : Operation → OperationKind
  | add .. => .add
  | remove _ => .remove
  | replace .. => .replace
  | move .. => .move
  | copy .. => .copy
  | test .. => .test

/-- The place that is changed or looked at. -/
def path : Operation → Pointer
  | add path _ | remove path | replace path _ | move _ path | copy _ path | test path _ => path

/-- The place that the value is taken from, if it is taken from one. -/
def source? : Operation → Option Pointer
  | move source _ | copy source _ => some source
  | _ => none

def value? : Operation → Option Node
  | add _ value | replace _ value | test _ value => some value
  | _ => none

/-- Whether a parsed patch may hold the operation: `add` and `replace` bring a value. -/
def isExpressible (operation : Operation) : Bool :=
  !(operation.kind.requiresValue && operation.value?.any Node.isNull)

/-- Equality of operations: pointers by their tokens, values as documents. -/
def same : Operation → Operation → Bool
  | add p v, add q w | replace p v, replace q w | test p v, test q w => p.same q && v.same w
  | remove p, remove q => p.same q
  | move s p, move t q | copy s p, copy t q => s.same t && p.same q
  | _, _ => false

/-- The wire form: an object, its members ascending by name. -/
def toJson (operation : Operation) : Json :=
  let source := match operation.source? with
    | some source => [("from", Json.string source.raw)]
    | none => []
  let value := match operation.value? with
    | some value => [("value", value.toJson)]
    | none => []
  .object (source ++ [("op", .string operation.kind.name), ("path", .string operation.path.raw)]
    ++ value)

/-- How messages show an operation: without its value. -/
def shown (operation : Operation) : String :=
  let path := Text.quoted operation.path.raw
  match operation.source? with
  | some source => operation.kind.name ++ " " ++ Text.quoted source.raw ++ " -> " ++ path
  | none => operation.kind.name ++ " " ++ path

end Operation

structure Patch where
  operations : List Operation
  nonempty : operations ≠ []

inductive PatchError where
  | unreadable (cause : ReadError)
  | missingOp
  | missingPath
  | missingFrom
  | missingValue
  | unknownOperation (name : String)
  | noOperations
  | invalidRoot
  | invalidPointer (cause : PointerError)

def PatchError.message : PatchError → String
  | .unreadable cause => "Could not parse patch: " ++ cause.message
  | .missingOp => "Could not find 'op' element."
  | .missingPath => "Could not find 'path' element."
  | .missingFrom => "Could not find 'from' element."
  | .missingValue => "Could not find 'value' element."
  | .unknownOperation name => "Operation is invalid: " ++ Text.quoted name
  | .noOperations => "Patch array does not contain elements."
  | .invalidRoot => "Root element is not an array of dictionaries or a single dictionary."
  | .invalidPointer cause => "invalid pointer: " ++ cause.message

/-- The kind of a wire name; any other name is a fault. -/
def OperationKind.ofName (name : String) : Except PatchError OperationKind :=
  match OperationKind.ofName? name with
  | some kind => .ok kind
  | none => .error (.unknownOperation name)

namespace Patch

def ofOperations : List Operation → Except PatchError Patch
  | [] => .error .noOperations
  | operation :: operations => .ok ⟨operation :: operations, by simp⟩

def size (patch : Patch) : Nat := patch.operations.length

def sameOperations : List Operation → List Operation → Bool
  | [], [] => true
  | a :: as, b :: bs => a.same b && sameOperations as bs
  | _, _ => false

/-- Equality of patches: the same operations in the same order. -/
def same (a b : Patch) : Bool := sameOperations a.operations b.operations

/-- The wire form: an array of operations. -/
def toJson (patch : Patch) : Json := .array (patch.operations.map Operation.toJson)

def text (patch : Patch) : String := patch.toJson.compact

end Patch

end JsonPatch
