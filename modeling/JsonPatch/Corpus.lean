import JsonPatch.Patch.Reading

namespace JsonPatch

/-- A document and a patch for it, as JSON values. -/
structure Fixture where
  document : Json
  patch : Json

/-- Why a fixture gives no document and patch. -/
inductive FixtureError where
  | document (cause : ReadError)
  | patch (cause : PatchError)

namespace Fixture

/-- The size of both texts in bytes. -/
def byteSize (fixture : Fixture) : Nat :=
  fixture.document.compact.utf8ByteSize + fixture.patch.compact.utf8ByteSize

def load (fixture : Fixture) : Except FixtureError (Node × Patch) := do
  let document ← (Node.ofJson fixture.document).mapError .document
  let patch ← (Patch.readJson fixture.patch).outcome.mapError .patch
  return (document, patch)

/-- The wire form of an operation without a source. -/
def step (op path : String) (value : Option Json) : Json :=
  .object ([("op", .string op), ("path", .string path)] ++ value.toList.map fun v => ("value", v))

/-- The wire form of an operation with a source. -/
def transfer (source op path : String) : Json :=
  .object [("from", .string source), ("op", .string op), ("path", .string path)]

def key (i : Nat) : String := "key" ++ toString i

def slash (name : String) : String := "/" ++ name

/-- The numbers below `size` that leave a remainder. -/
def spaced (remainder interval size : Nat) : List Nat :=
  (List.range size).filter fun i => i % interval == remainder

/-- An object of numbered members. Every fourth is tested and replaced, every eighth removed, and a
name with a slash is added. -/
def flatObject (size : Nat) : Fixture where
  document := .ofMembers ((List.range size).map fun i => (key i, .ofNat i))
  patch := .array (
    (spaced 0 4 size).flatMap (fun i =>
      [step "test" (slash (key i)) (some (.ofNat i)),
       step "replace" (slash (key i)) (some (.string ("v" ++ toString i)))])
    ++ (spaced 1 8 size).map (fun i => step "remove" (slash (key i)) none)
    ++ [step "add" "/extra~1slash"
      (some (.object [("nested", .array [.ofNat 1, .ofNat 2, .ofNat 3])]))])

/-- An array of small objects. At every sixty-fourth place an element is appended, one is moved to
the front, and a part of the front is copied into the place. -/
def longArray (size : Nat) : Fixture where
  document := .array ((List.range size).map fun i =>
    .object [("id", .ofNat i), ("tags", .array [.string "a", .string "b"])])
  patch := .array ((spaced 0 64 size).flatMap fun i =>
    [step "add" "/-" (some (.object [("id", .ofNat (size + i))])),
     transfer (slash (toString i)) "move" "/0",
     transfer "/0/tags" "copy" (slash (toString i) ++ "/copied")])

def level (i : Nat) : String := "level" ++ toString i

/-- Objects inside one another, the outermost at the given level, around a small one. -/
def nested (outermost : Nat) : Nat → Json
  | 0 => .object [
      ("items", .array [.ofNat 1, .ofNat 2, .ofNat 3]), ("leaf", .bool true)]
  | depth + 1 =>
    .object [(level outermost, nested (outermost + 1) depth), ("sibling", .ofNat outermost)]

/-- Objects inside one another. Parts of the innermost are tested, replaced, inserted and copied
outward, and a part of the outermost is moved inward. -/
def nestedConfig (depth : Nat) : Fixture :=
  let path := String.join ((List.range depth).map fun i => slash (level i))
  { document := nested 0 depth
    patch := .array [
      step "test" (path ++ "/leaf") (some (.bool true)),
      step "replace" (path ++ "/leaf") (some (.bool false)),
      step "add" (path ++ "/items/1") (some (.ofNat 9)),
      transfer (path ++ "/items") "copy" "/items",
      transfer "/sibling" "move" (path ++ "/sibling")] }

end Fixture

/-- A named fixture: how it is generated, and at what size. -/
structure Corpus where
  name : String
  size : Nat
  generate : Nat → Fixture

namespace Corpus

def fixture (corpus : Corpus) : Fixture := corpus.generate corpus.size

def all : List Corpus := [
  ⟨"flat-object", 512, Fixture.flatObject⟩,
  ⟨"long-array", 2048, Fixture.longArray⟩,
  ⟨"nested-config", 6, Fixture.nestedConfig⟩]

def find? (name : String) : Option Corpus := all.find? fun corpus => corpus.name == name

end Corpus

end JsonPatch
