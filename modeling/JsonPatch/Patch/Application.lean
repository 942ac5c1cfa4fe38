import JsonPatch.Node.Lookup
import JsonPatch.Traced

namespace JsonPatch

/-- Why an operation cannot be applied. The last two are refusals of a `test`. -/
inductive ApplyError where
  | location (cause : LocationError)
  | noValue (pointer : String) (cause : LocationError)
  | unequal (pointer : String) (expected found : Node)

def ApplyError.message : ApplyError → String
  | .location cause => cause.message
  | .noValue pointer cause =>
    "Could not validate JSON: no value at " ++ Text.quoted pointer ++ ": " ++ cause.message
  | .unequal pointer expected found =>
    "Could not validate JSON: expected " ++ expected.text ++ " at " ++ Text.quoted pointer
      ++ ", found " ++ found.text

namespace Node

/-- A change of the container that holds the last token of a pointer. -/
abbrev Change := (container : Node) → (token : String) → Traced LocationError Node

/-- Goes down along the tokens to the container that holds the last of them, changes it, and builds
the containers around it anew. `raw` is the pointer's text, and `depth` tokens lie behind. -/
def descend (raw : String) (change : Change) (depth : Nat) (token : String) :
    List String → Node → Traced LocationError Node
  | [], node => change node token
  | next :: tokens, node => do
    Traced.report (.descending raw depth token)
    match node with
    | array items =>
      let i ← Traced.ofExcept (elementIndex raw token items.length)
      let item ← descend raw change (depth + 1) next tokens items[i]
      return array (items.set i item)
    | object members =>
      match members.lookup token with
      | none => Traced.fail (.missingMember raw token)
      | some value =>
        let value ← descend raw change (depth + 1) next tokens value
        return object (Members.insert token value members)
    | node => Traced.fail (.notAContainer raw node.kindName)

/-- Puts a value into a container: as a member, or before the element that the token names. -/
def insertChild (raw : String) (value : Node) : Change := fun container token =>
  match container with
  | object members => return object (Members.insert token value members)
  | array items => do
    let i ← Traced.ofExcept (insertionIndex raw token items.length)
    return array (items.insertIdx i value)
  | node => Traced.fail (.notAContainer raw node.kindName)

/-- Drops a member or an element. A member that is not there is only reported. -/
def removeChild (raw : String) : Change := fun container token =>
  match container with
  | object members => do
    if (members.lookup token).isNone then Traced.report (.memberMissing raw)
    return object (Members.erase token members)
  | array items => do
    let i ← Traced.ofExcept (elementIndex raw token items.length)
    return array (items.eraseIdx i)
  | node => Traced.fail (.notAContainer raw node.kindName)

/-- Sets a member, or an element that is there already. -/
def setChild (raw : String) (value : Node) : Change := fun container token =>
  match container with
  | object members => return object (Members.insert token value members)
  | array items => do
    let i ← Traced.ofExcept (elementIndex raw token items.length)
    return array (items.set i value)
  | node => Traced.fail (.notAContainer raw node.kindName)

/-- Adds a value at a pointer. At the root it takes the place of the document. -/
def add (document : Node) (pointer : Pointer) (value : Node) : Traced LocationError Node :=
  match pointer.tokens with
  | [] => return value
  | token :: tokens =>
    descend pointer.raw (insertChild pointer.raw value) 0 token tokens document

/-- Removes the value at a pointer. The root stays. -/
def remove (document : Node) (pointer : Pointer) : Traced LocationError Node :=
  match pointer.tokens with
  | [] => do
    Traced.report .rootKept
    return document
  | token :: tokens => descend pointer.raw (removeChild pointer.raw) 0 token tokens document

def replace (document : Node) (pointer : Pointer) (value : Node) : Traced LocationError Node :=
  match pointer.tokens with
  | [] => return value
  | token :: tokens => descend pointer.raw (setChild pointer.raw value) 0 token tokens document

/-- Moves a value to another place, which must not lie inside its own. -/
def move (document : Node) (source pointer : Pointer) : Traced LocationError Node :=
  if pointer.isInside source then Traced.fail (.insideSource pointer.raw source.raw)
  else do
    let value ← Traced.ofExcept (document.lookup source)
    if source.same pointer then return document
    else
      let document ← document.remove source
      document.add pointer value

def copy (document : Node) (source pointer : Pointer) : Traced LocationError Node := do
  let value ← Traced.ofExcept (document.lookup source)
  document.add pointer value

/-- Compares the value at a pointer with an expected one. -/
def test (document : Node) (pointer : Pointer) (expected : Node) : Except ApplyError Unit :=
  match document.lookup pointer with
  | .error cause => .error (.noValue pointer.raw cause)
  | .ok found => if found.same expected then .ok () else .error (.unequal pointer.raw expected found)

end Node

def Operation.apply (document : Node) : Operation → Traced ApplyError Node
  | .add path value => (document.add path value).mapError .location
  | .remove path => (document.remove path).mapError .location
  | .replace path value => (document.replace path value).mapError .location
  | .move source path => (document.move source path).mapError .location
  | .copy source path => (document.copy source path).mapError .location
  | .test path expected => do
    Traced.ofExcept (document.test path expected)
    return document

namespace Patch

/-- Applies operations from the left, each announced with its number. -/
def applyFrom (index : Nat) : List Operation → Node → Traced ApplyError Node
  | [], document => return document
  | operation :: operations, document => do
    Traced.report (.applying index operation)
    let document ← operation.apply document
    applyFrom (index + 1) operations document

def apply (patch : Patch) (document : Node) : Traced ApplyError Node :=
  applyFrom 0 patch.operations document

end Patch

end JsonPatch
