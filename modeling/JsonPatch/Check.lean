import JsonPatch.Patch.Application
import JsonPatch.Patch.Reading
import JsonPatch.Sample

namespace JsonPatch

/-- A law that an input breaks. -/
inductive Violation where
  | pointerNotSpelled
  | spellingNotRead
  | spellingChanged (text : String)
  | outsideParent
  | parentNotShorter
  | patchNotRead
  | patchChanged (text : String)
  | patchNotMade
  | documentUnlikeItself
  | documentChanged
  deriving DecidableEq

def Violation.message : Violation → String
  | .pointerNotSpelled => "parsed tokens are never empty"
  | .spellingNotRead => "encoded pointer must parse"
  | .spellingChanged text =>
    "assertion `left == right` failed: token encoding is not stable for " ++ Text.quoted text
  | .outsideParent => "assertion failed: a pointer lies inside its parent"
  | .parentNotShorter => "assertion `left == right` failed"
  | .patchNotRead => "serialized patch must parse again"
  | .patchChanged text =>
    "assertion `left == right` failed: patch did not survive serialization: " ++ text
  | .patchNotMade => "single operation patch"
  | .documentUnlikeItself => "document must test equal to itself"
  | .documentChanged => "assertion `left == right` failed: apply must not modify its input"

namespace Check

/-- A pointer that was read is spelled by its tokens and read back as the same; its parent is one
token shorter and holds it. -/
def pointerText (text : String) : Except Violation Unit := do
  match Pointer.parse text with
  | .error _ => return ()
  | .ok pointer =>
    match Pointer.ofTokens pointer.tokens with
    | .error _ => throw .pointerNotSpelled
    | .ok spelled =>
      match Pointer.parse spelled.raw with
      | .error _ => throw .spellingNotRead
      | .ok again =>
        if !again.same pointer then throw (.spellingChanged text)
        match pointer.parent? with
        | none => return ()
        | some parent =>
          if !pointer.isInside parent then throw .outsideParent
          if parent.tokens.length + 1 ≠ pointer.tokens.length then throw .parentNotShorter

/-- A patch is read back from its own text as an equal one. -/
def survives (patch : Patch) : Traced Violation Unit := do
  match ← (Patch.readText .json patch.text).attempt with
  | .error _ => Traced.fail .patchNotRead
  | .ok again => if again.same patch then return () else Traced.fail (.patchChanged patch.text)

/-- `survives` for a patch that a text gave, if it gave one. -/
def survivesIfRead : Except PatchError Patch → Traced Violation Unit
  | .ok patch => survives patch
  | .error _ => return ()

/-- Patches read from a text in either notation survive being written. Both are read before either
is written. -/
def patchText (text : String) : Traced Violation Unit := do
  let fromJson ← (Patch.readText .json text).attempt
  let fromYaml ← (Patch.readText .yaml text).attempt
  survivesIfRead fromJson
  survivesIfRead fromYaml

/-- One operation makes a patch, and a document passes a test for itself. -/
def testsItself (document : Node) : Traced Violation Unit := do
  match Patch.ofOperations [.test Pointer.root document] with
  | .error _ => Traced.fail .patchNotMade
  | .ok whole =>
    match ← (whole.apply document).attempt with
    | .ok _ => return ()
    | .error _ => Traced.fail .documentUnlikeItself

/-- Operations run to an end, whatever the end is, and the document they are applied to stays equal
to what it was before. -/
def runsThrough (operations : List Operation) (document : Node) : Traced Violation Unit := do
  match Patch.ofOperations operations with
  | .error _ => return ()
  | .ok patch =>
    let snapshot := document
    let _ ← (patch.apply document).attempt
    if document.same snapshot then return () else Traced.fail .documentChanged

/-- A text of bytes, if they are well-formed UTF-8. -/
def text? (bytes : List UInt8) : Option String := String.fromUTF8? ⟨bytes.toArray⟩

def pointer (bytes : List UInt8) : Except Violation Unit :=
  match text? bytes with
  | some text => pointerText text
  | none => return ()

def patch (bytes : List UInt8) : Traced Violation Unit :=
  match text? bytes with
  | some text => patchText text
  | none => return ()

/-- Draws a document and operations from bytes; the document passes a test for itself, and the
operations run through. -/
def application (bytes : List UInt8) : Traced Violation Unit := do
  match Sample.document Sample.deepest bytes with
  | none => return ()
  | some (document, rest) =>
    testsItself document
    match Sample.operations document rest with
    | none => return ()
    | some (operations, _) => runsThrough operations document

end Check

end JsonPatch
