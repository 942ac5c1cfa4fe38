import JsonPatch.Traced

namespace JsonPatch

/-- The text of a member; `missing` is the fault if there is none. -/
def stringMember (members : List (String × Node)) (name : String) (missing : PatchError) :
    Except PatchError String :=
  match (members.lookup name).bind Node.string? with
  | some text => .ok text
  | none => .error missing

def pointerMember (members : List (String × Node)) (name : String) (missing : PatchError) :
    Except PatchError Pointer := do
  let raw ← stringMember members name missing
  (Pointer.parse raw).mapError .invalidPointer

/-- The value of an `add` or a `replace`. A null counts as none. -/
def valueMember (members : List (String × Node)) : Except PatchError Node :=
  match members.lookup "value" with
  | none | some .null => .error .missingValue
  | some value => .ok value

/-- The operation that an object describes: its kind, its path, its source, its value. -/
def Operation.ofMembers (members : List (String × Node)) : Except PatchError Operation := do
  let name ← stringMember members "op" .missingOp
  let kind ← OperationKind.ofName name
  let path ← pointerMember members "path" .missingPath
  match kind with
  | .add => .ok (.add path (← valueMember members))
  | .remove => .ok (.remove path)
  | .replace => .ok (.replace path (← valueMember members))
  | .move => .ok (.move (← pointerMember members "from" .missingFrom) path)
  | .copy => .ok (.copy (← pointerMember members "from" .missingFrom) path)
  | .test => .ok (.test path ((members.lookup "value").getD .null))

/-- The operation that a node describes. Only objects describe any. -/
def Operation.ofNode : Node → Except PatchError Operation
  | .object members => Operation.ofMembers members
  | _ => .error .missingOp

/-- The operations that the elements of an array describe. -/
def operationsOfNodes : List Node → Except PatchError (List Operation)
  | [] => .ok []
  | node :: nodes => do
    let operation ← Operation.ofNode node
    .ok (operation :: (← operationsOfNodes nodes))

namespace Patch

/-- The patch that a document describes: one operation, or an array of them. -/
def ofNode : Node → Except PatchError Patch
  | .object members => do ofOperations [← Operation.ofMembers members]
  | .array items => do ofOperations (← operationsOfNodes items)
  | _ => .error .invalidRoot

/-- Reads a patch from a document and reports its size. -/
def read (node : Node) : Traced PatchError Patch := do
  let patch ← Traced.ofExcept (ofNode node)
  Traced.report (.patchRead patch.size)
  return patch

def readJson (value : Json) : Traced PatchError Patch := do
  let node ← Traced.ofExcept ((Node.ofJson value).mapError .unreadable)
  read node

def readText (format : Format) (text : String) : Traced PatchError Patch := do
  let node ← Traced.ofExcept ((Node.read format text).mapError .unreadable)
  read node

end Patch

end JsonPatch
