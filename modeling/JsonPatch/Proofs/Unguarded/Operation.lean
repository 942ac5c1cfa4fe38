import JsonPatch.Proofs.Wire

namespace JsonPatch

/-- An operation with room for a value and a source, whatever its kind. -/
structure FlatOperation where
  kind : OperationKind
  path : Pointer
  value : Node
  source? : Option Pointer

namespace FlatOperation

def add (path : Pointer) (value : Node) : FlatOperation := ⟨.add, path, value, none⟩

def remove (path : Pointer) : FlatOperation := ⟨.remove, path, .null, none⟩

def replace (path : Pointer) (value : Node) : FlatOperation := ⟨.replace, path, value, none⟩

def move (source path : Pointer) : FlatOperation := ⟨.move, path, .null, some source⟩

def copy (source path : Pointer) : FlatOperation := ⟨.copy, path, .null, some source⟩

def test (path : Pointer) (expected : Node) : FlatOperation := ⟨.test, path, expected, none⟩

/-- The source that a kind asks for. -/
def readSource (kind : OperationKind) (members : List (String × Node)) :
    Except PatchError (Option Pointer) :=
  if kind.requiresSource then do
    let source ← pointerMember members "from" .missingFrom
    .ok (some source)
  else .ok none

/-- The value that a kind carries, null if there is none. -/
def readValue (kind : OperationKind) (members : List (String × Node)) : Node :=
  match members.lookup "value" with
  | some value => if kind.carriesValue then value else .null
  | none => .null

/-- The operation that an object describes, each room filled as the kind asks. -/
def ofMembers (members : List (String × Node)) : Except PatchError FlatOperation := do
  let name ← stringMember members "op" .missingOp
  let kind ← OperationKind.ofName name
  let path ← pointerMember members "path" .missingPath
  let source? ← readSource kind members
  let value := readValue kind members
  if kind.requiresValue && value.isNull then .error .missingValue
  else .ok ⟨kind, path, value, source?⟩

/-- The operations that are built, or read from objects. -/
inductive Obtainable : FlatOperation → Prop where
  | add {path : Pointer} {value : Node} :
      path.Obtainable → value.Ordered → Obtainable (.add path value)
  | remove {path : Pointer} : path.Obtainable → Obtainable (.remove path)
  | replace {path : Pointer} {value : Node} :
      path.Obtainable → value.Ordered → Obtainable (.replace path value)
  | move {source path : Pointer} :
      source.Obtainable → path.Obtainable → Obtainable (.move source path)
  | copy {source path : Pointer} :
      source.Obtainable → path.Obtainable → Obtainable (.copy source path)
  | test {path : Pointer} {expected : Node} :
      path.Obtainable → expected.Ordered → Obtainable (.test path expected)
  | read {members : List (String × Node)} {operation : FlatOperation} :
      (Node.object members).Ordered → ofMembers members = .ok operation → Obtainable operation

end FlatOperation

/-- An operation in the shape of all kinds. -/
def Operation.flat (operation : Operation) : FlatOperation :=
  ⟨operation.kind, operation.path, operation.value?.getD .null, operation.source?⟩

namespace FlatOperation

theorem readValue_of_carriesValue_false {kind : OperationKind} (h : kind.carriesValue = false)
    (members : List (String × Node)) : readValue kind members = .null := by
  unfold readValue
  cases members.lookup "value" with
  | none => rfl
  | some value => simp only [h, Bool.false_eq_true, if_false]

theorem readValue_of_carriesValue {kind : OperationKind} (h : kind.carriesValue = true)
    (members : List (String × Node)) :
    readValue kind members = (members.lookup "value").getD .null := by
  unfold readValue
  cases members.lookup "value" with
  | none => rfl
  | some value => simp only [h, if_true, Option.getD_some]

theorem valueMember_eq (members : List (String × Node)) :
    valueMember members =
      if ((members.lookup "value").getD .null).isNull then .error .missingValue
      else .ok ((members.lookup "value").getD .null) := by
  unfold valueMember
  cases members.lookup "value" with
  | none => rfl
  | some value => cases value <;> rfl

/-- Objects describe the same operations in both shapes, or lack the same things. -/
theorem ofMembers_eq_map_flat (members : List (String × Node)) :
    ofMembers members = Operation.flat <$> Operation.ofMembers members := by
  unfold ofMembers Operation.ofMembers
  simp only [map_bind]
  refine bind_congr fun name => bind_congr fun kind => bind_congr fun path => ?_
  cases kind with
  | add =>
    rw [readValue_of_carriesValue rfl, valueMember_eq]
    cases ((members.lookup "value").getD .null).isNull <;> rfl
  | replace =>
    rw [readValue_of_carriesValue rfl, valueMember_eq]
    cases ((members.lookup "value").getD .null).isNull <;> rfl
  | remove =>
    rw [readValue_of_carriesValue_false rfl]
    rfl
  | move =>
    rw [readValue_of_carriesValue_false rfl]
    change (pointerMember members "from" .missingFrom >>= _) >>= _ = _
    cases pointerMember members "from" .missingFrom <;> rfl
  | copy =>
    rw [readValue_of_carriesValue_false rfl]
    change (pointerMember members "from" .missingFrom >>= _) >>= _ = _
    cases pointerMember members "from" .missingFrom <;> rfl
  | test =>
    rw [readValue_of_carriesValue rfl]
    rfl

/-- Whatever is built or read is one of the operations, each with the rooms of its kind filled. -/
theorem Obtainable.exists_flat {operation : FlatOperation} (h : operation.Obtainable) :
    ∃ plain : Operation, plain.Obtainable ∧ plain.flat = operation := by
  cases h with
  | add hpath hvalue => exact ⟨.add _ _, (Operation.obtainable_iff _).mpr ⟨hpath, hvalue⟩, rfl⟩
  | remove hpath => exact ⟨.remove _, (Operation.obtainable_iff _).mpr hpath, rfl⟩
  | replace hpath hvalue =>
    exact ⟨.replace _ _, (Operation.obtainable_iff _).mpr ⟨hpath, hvalue⟩, rfl⟩
  | move hsource hpath =>
    exact ⟨.move _ _, (Operation.obtainable_iff _).mpr ⟨hsource, hpath⟩, rfl⟩
  | copy hsource hpath =>
    exact ⟨.copy _ _, (Operation.obtainable_iff _).mpr ⟨hsource, hpath⟩, rfl⟩
  | test hpath hvalue => exact ⟨.test _ _, (Operation.obtainable_iff _).mpr ⟨hpath, hvalue⟩, rfl⟩
  | read hordered hread =>
    rw [ofMembers_eq_map_flat, map_eq_pure_bind] at hread
    obtain ⟨plain, hplain, hflat⟩ := bind_eq_ok.mp hread
    cases hflat
    exact ⟨plain, (Operation.obtainable_of_ofMembers hordered hplain).1, rfl⟩

theorem obtainable_flat {operation : Operation} (h : operation.Obtainable) :
    operation.flat.Obtainable := by
  have hparts := (Operation.obtainable_iff operation).mp h
  cases operation with
  | add path value => exact .add hparts.1 hparts.2
  | remove path => exact .remove hparts
  | replace path value => exact .replace hparts.1 hparts.2
  | move source path => exact .move hparts.1 hparts.2
  | copy source path => exact .copy hparts.1 hparts.2
  | test path expected => exact .test hparts.1 hparts.2

theorem exists_map_flat {operations : List FlatOperation} (h : ∀ o ∈ operations, o.Obtainable) :
    ∃ plain : List Operation, (∀ o ∈ plain, o.Obtainable) ∧
      plain.map Operation.flat = operations := by
  induction operations with
  | nil => exact ⟨[], by simp, rfl⟩
  | cons operation operations ih =>
    obtain ⟨first, hfirst, rfl⟩ := (h operation List.mem_cons_self).exists_flat
    obtain ⟨rest, hrest, rfl⟩ := ih fun o ho => h o (List.mem_cons_of_mem _ ho)
    refine ⟨first :: rest, ?_, rfl⟩
    intro o ho
    rcases List.mem_cons.mp ho with rfl | ho
    · exact hfirst
    · exact hrest o ho

/-- There is a source exactly where the kind asks for one. -/
theorem Obtainable.source_isSome {operation : FlatOperation} (h : operation.Obtainable) :
    operation.source?.isSome = operation.kind.requiresSource := by
  obtain ⟨plain, -, rfl⟩ := h.exists_flat
  cases plain <;> rfl

end FlatOperation

end JsonPatch
