import JsonPatch.Patch.Reading
import JsonPatch.Proofs.Conversion
import JsonPatch.Proofs.Pointer.Spelling

namespace JsonPatch

namespace Operation

/-- The operations that can be built: over pointers and documents that there are. -/
def Obtainable (operation : Operation) : Prop :=
  operation.path.Obtainable ∧ (∀ source ∈ operation.source?, source.Obtainable) ∧
    ∀ value ∈ operation.value?, value.Ordered

theorem obtainable_iff (operation : Operation) :
    operation.Obtainable ↔ match operation with
      | add path value | replace path value | test path value => path.Obtainable ∧ value.Ordered
      | remove path => path.Obtainable
      | move source path | copy source path => source.Obtainable ∧ path.Obtainable := by
  cases operation <;> simp [Obtainable, Operation.path, source?, value?, and_comm]

/-- The members of the wire form, as parts of a document. -/
def members (operation : Operation) : List (String × Node) :=
  let source := match operation.source? with
    | some source => [("from", Node.string source.raw)]
    | none => []
  let value := match operation.value? with
    | some value => [("value", value)]
    | none => []
  source ++ [("op", .string operation.kind.name), ("path", .string operation.path.raw)] ++ value

theorem toJson_eq_members (operation : Operation) :
    operation.toJson = (Node.object operation.members).toJson := by
  cases operation <;> rfl

theorem lookup_op (operation : Operation) :
    operation.members.lookup "op" = some (.string operation.kind.name) := by
  cases operation <;> rfl

theorem lookup_path (operation : Operation) :
    operation.members.lookup "path" = some (.string operation.path.raw) := by
  cases operation <;> rfl

theorem lookup_from {operation : Operation} {source : Pointer}
    (h : operation.source? = some source) :
    operation.members.lookup "from" = some (.string source.raw) := by
  cases operation <;> cases h <;> rfl

theorem lookup_value (operation : Operation) :
    operation.members.lookup "value" = operation.value? := by
  cases operation <;> rfl

theorem ascending_members (operation : Operation) : Members.Ascending operation.members := by
  have hnames : (operation.members.map Prod.fst).Pairwise (· < ·) := by
    cases operation with
    | remove path =>
      change ["op", "path"].Pairwise (· < ·)
      decide
    | move source path =>
      change ["from", "op", "path"].Pairwise (· < ·)
      decide
    | copy source path =>
      change ["from", "op", "path"].Pairwise (· < ·)
      decide
    | _ =>
      change ["op", "path", "value"].Pairwise (· < ·)
      decide
  exact List.pairwise_map.mp hnames

theorem ordered_members {operation : Operation} (h : operation.Obtainable) :
    (Node.object operation.members).Ordered := by
  refine ⟨operation.ascending_members, ?_⟩
  obtain ⟨-, -, hvalue⟩ := h
  cases operation with
  | add path value => exact ⟨trivial, trivial, hvalue value rfl, trivial⟩
  | remove path => exact ⟨trivial, trivial, trivial⟩
  | replace path value => exact ⟨trivial, trivial, hvalue value rfl, trivial⟩
  | move source path => exact ⟨trivial, trivial, trivial, trivial⟩
  | copy source path => exact ⟨trivial, trivial, trivial, trivial⟩
  | test path expected => exact ⟨trivial, trivial, hvalue expected rfl, trivial⟩

theorem isExpressible_eq_true_iff (operation : Operation) :
    operation.isExpressible = true ↔
      ∀ path, operation ≠ .add path .null ∧ operation ≠ .replace path .null := by
  cases operation with
  | add path value => cases value <;> simp [isExpressible, kind, OperationKind.requiresValue,
      value?, Node.isNull]
  | replace path value => cases value <;> simp [isExpressible, kind, OperationKind.requiresValue,
      value?, Node.isNull]
  | _ => simp [isExpressible, kind, OperationKind.requiresValue]

theorem ofName_name (kind : OperationKind) : OperationKind.ofName kind.name = .ok kind := by
  cases kind <;> rfl

theorem pointerMember_of_lookup {members : List (String × Node)} {name : String} {p : Pointer}
    (missing : PatchError) (h : members.lookup name = some (.string p.raw)) (hp : p.Obtainable) :
    pointerMember members name missing = .ok p := by
  have hparse : Pointer.parse p.raw = .ok p := hp.spelled
  simp only [pointerMember, stringMember, h, Option.bind_some, Node.string?]
  change (Pointer.parse p.raw).mapError PatchError.invalidPointer = .ok p
  rw [hparse]
  rfl

/-- The wire form of an operation describes it, if it can be described. -/
theorem ofMembers_members {operation : Operation} (h : operation.Obtainable) :
    ofMembers operation.members =
      if operation.isExpressible then .ok operation else .error .missingValue := by
  have hname : stringMember operation.members "op" .missingOp = .ok operation.kind.name := by
    simp only [stringMember, operation.lookup_op, Option.bind_some, Node.string?]
  have hpath := pointerMember_of_lookup .missingPath operation.lookup_path h.1
  have hsource : ∀ source, operation.source? = some source →
      pointerMember operation.members "from" .missingFrom = .ok source := by
    intro source hs
    exact pointerMember_of_lookup .missingFrom (lookup_from hs) (h.2.1 source hs)
  have hvalue := operation.lookup_value
  rw [ofMembers, hname]
  change (OperationKind.ofName operation.kind.name >>= _) = _
  rw [ofName_name]
  change (pointerMember operation.members "path" .missingPath >>= _) = _
  rw [hpath]
  cases operation with
  | add path value =>
    change (valueMember _ >>= _) = _
    rw [valueMember, hvalue]
    cases value <;> rfl
  | remove path => rfl
  | replace path value =>
    change (valueMember _ >>= _) = _
    rw [valueMember, hvalue]
    cases value <;> rfl
  | move source path =>
    change (pointerMember _ _ _ >>= _) = _
    rw [hsource source rfl]
    rfl
  | copy source path =>
    change (pointerMember _ _ _ >>= _) = _
    rw [hsource source rfl]
    rfl
  | test path expected =>
    change Except.ok (Operation.test path ((List.lookup "value" _).getD .null)) = _
    rw [hvalue]
    rfl

theorem obtainable_of_pointerMember {members : List (String × Node)} {name : String}
    {missing : PatchError} {p : Pointer} (h : pointerMember members name missing = .ok p) :
    p.Obtainable := by
  obtain ⟨raw, -, hparse⟩ := bind_eq_ok.mp h
  exact .parse (mapError_eq_ok.mp hparse)

theorem of_valueMember {members : List (String × Node)} {value : Node}
    (h : valueMember members = .ok value) :
    members.lookup "value" = some value ∧ value.isNull = false := by
  unfold valueMember at h
  cases hfound : members.lookup "value" with
  | none => simp [hfound] at h
  | some found =>
    rw [hfound] at h
    cases found with
    | null => cases h
    | _ =>
      cases h
      exact ⟨rfl, rfl⟩

/-- What an object describes can be built, and can be described. -/
theorem obtainable_of_ofMembers {members : List (String × Node)} {operation : Operation}
    (hordered : (Node.object members).Ordered) (h : ofMembers members = .ok operation) :
    operation.Obtainable ∧ operation.isExpressible = true := by
  have hmember : ∀ value, members.lookup "value" = some value → value.Ordered := by
    intro value hvalue
    obtain ⟨before, after, rfl, -⟩ := List.lookup_eq_some_iff.mp hvalue
    exact (Node.membersOrdered_iff _).mp hordered.2 ("value", value) (by simp)
  obtain ⟨name, -, hafterName⟩ := bind_eq_ok.mp h
  obtain ⟨kind, -, hafterKind⟩ := bind_eq_ok.mp hafterName
  obtain ⟨path, hpath, hlast⟩ := bind_eq_ok.mp hafterKind
  have hpath := obtainable_of_pointerMember hpath
  cases kind with
  | add =>
    obtain ⟨value, hvalue, hok⟩ := bind_eq_ok.mp hlast
    cases hok
    obtain ⟨hfound, hnull⟩ := of_valueMember hvalue
    have hordered := hmember value hfound
    refine ⟨?_, ?_⟩
    · simp [Obtainable, Operation.path, source?, value?, hpath, hordered]
    · simp [isExpressible, value?, hnull]
  | remove =>
    cases hlast
    exact ⟨by simp [Obtainable, Operation.path, source?, value?, hpath], rfl⟩
  | replace =>
    obtain ⟨value, hvalue, hok⟩ := bind_eq_ok.mp hlast
    cases hok
    obtain ⟨hfound, hnull⟩ := of_valueMember hvalue
    have hordered := hmember value hfound
    refine ⟨?_, ?_⟩
    · simp [Obtainable, Operation.path, source?, value?, hpath, hordered]
    · simp [isExpressible, value?, hnull]
  | move =>
    obtain ⟨source, hsource, hok⟩ := bind_eq_ok.mp hlast
    cases hok
    have hsource := obtainable_of_pointerMember hsource
    exact ⟨by simp [Obtainable, Operation.path, source?, value?, hpath, hsource], rfl⟩
  | copy =>
    obtain ⟨source, hsource, hok⟩ := bind_eq_ok.mp hlast
    cases hok
    have hsource := obtainable_of_pointerMember hsource
    exact ⟨by simp [Obtainable, Operation.path, source?, value?, hpath, hsource], rfl⟩
  | test =>
    cases hlast
    have hordered : ((members.lookup "value").getD .null).Ordered := by
      cases hvalue : members.lookup "value" with
      | none => trivial
      | some value => exact hmember value hvalue
    exact ⟨by simp [Obtainable, Operation.path, source?, value?, hpath, hordered], rfl⟩

end Operation

namespace Patch

/-- The patches that are read from a document, a JSON value or a text. -/
inductive Parsed (patch : Patch) : Prop where
  | node {node : Node} : node.Ordered → (read node).outcome = .ok patch → Parsed patch
  | json {value : Json} : (readJson value).outcome = .ok patch → Parsed patch
  | text {format : Format} {text : String} :
      (readText format text).outcome = .ok patch → Parsed patch

/-- The patches that are read, or built from operations. -/
inductive Obtainable (patch : Patch) : Prop where
  | built {operations : List Operation} : (∀ operation ∈ operations, operation.Obtainable) →
      ofOperations operations = .ok patch → Obtainable patch
  | parsed : patch.Parsed → Obtainable patch

theorem operations_of_ofOperations {operations : List Operation} {patch : Patch}
    (h : ofOperations operations = .ok patch) : patch.operations = operations := by
  cases operations with
  | nil => cases h
  | cons operation operations =>
    cases h
    rfl

theorem read_outcome (node : Node) : (read node).outcome = ofNode node := by
  simp only [read, Traced.outcome_bind, Traced.outcome_ofExcept, Traced.outcome_report,
    Traced.outcome_pure]
  cases ofNode node <;> rfl

theorem obtainable_of_operationsOfNodes {items : List Node} {operations : List Operation}
    (hordered : Node.ItemsOrdered items) (h : operationsOfNodes items = .ok operations) :
    ∀ operation ∈ operations, operation.Obtainable ∧ operation.isExpressible = true := by
  induction items generalizing operations with
  | nil =>
    cases h
    simp
  | cons item items ih =>
    obtain ⟨operation, hoperation, hrest⟩ := bind_eq_ok.mp h
    obtain ⟨rest, hitems, hok⟩ := bind_eq_ok.mp hrest
    cases hok
    intro o ho
    rcases List.mem_cons.mp ho with rfl | ho
    · cases item with
      | object members => exact Operation.obtainable_of_ofMembers hordered.1 hoperation
      | _ => cases hoperation
    · exact ih hordered.2 hitems o ho

theorem obtainable_of_ofNode {node : Node} {patch : Patch} (hordered : node.Ordered)
    (h : ofNode node = .ok patch) :
    ∀ operation ∈ patch.operations, operation.Obtainable ∧ operation.isExpressible = true := by
  cases node with
  | object members =>
    obtain ⟨operation, hoperation, hok⟩ := bind_eq_ok.mp h
    rw [operations_of_ofOperations hok]
    intro o ho
    rw [List.mem_singleton.mp ho]
    exact Operation.obtainable_of_ofMembers hordered hoperation
  | array items =>
    obtain ⟨operations, hitems, hok⟩ := bind_eq_ok.mp h
    rw [operations_of_ofOperations hok]
    exact obtainable_of_operationsOfNodes hordered hitems
  | _ => cases h

theorem readJson_eq_ok_iff (value : Json) (patch : Patch) :
    (readJson value).outcome = .ok patch ↔
      ∃ node, Node.ofJson value = .ok node ∧ ofNode node = .ok patch := by
  simp only [readJson, Traced.outcome_bind, Traced.outcome_ofExcept, read_outcome, bind_eq_ok,
    mapError_eq_ok]

theorem readText_eq_ok_iff (format : Format) (text : String) (patch : Patch) :
    (readText format text).outcome = .ok patch ↔
      ∃ node, Node.read format text = .ok node ∧ ofNode node = .ok patch := by
  simp only [readText, Traced.outcome_bind, Traced.outcome_ofExcept, read_outcome, bind_eq_ok,
    mapError_eq_ok]

theorem Parsed.operations {patch : Patch} (h : patch.Parsed) :
    ∀ operation ∈ patch.operations, operation.Obtainable ∧ operation.isExpressible = true := by
  cases h with
  | @node node hordered h =>
    rw [read_outcome] at h
    exact obtainable_of_ofNode hordered h
  | json h =>
    obtain ⟨node, hnode, hpatch⟩ := (readJson_eq_ok_iff _ _).mp h
    exact obtainable_of_ofNode (Node.ordered_of_ofJson _ hnode) hpatch
  | text h =>
    obtain ⟨node, hnode, hpatch⟩ := (readText_eq_ok_iff _ _ _).mp h
    exact obtainable_of_ofNode (Node.ordered_of_read hnode) hpatch

theorem Obtainable.operations {patch : Patch} (h : patch.Obtainable) :
    ∀ operation ∈ patch.operations, operation.Obtainable := by
  cases h with
  | built hall h =>
    rw [operations_of_ofOperations h]
    exact hall
  | parsed h => exact fun operation ho => (h.operations operation ho).1

theorem operationsOfNodes_members {operations : List Operation}
    (h : ∀ operation ∈ operations, operation.Obtainable) :
    operationsOfNodes (operations.map fun operation => .object operation.members) =
      if operations.all Operation.isExpressible then .ok operations
      else .error .missingValue := by
  induction operations with
  | nil => rfl
  | cons operation operations ih =>
    rw [List.map_cons, operationsOfNodes, Operation.ofNode,
      Operation.ofMembers_members (h operation List.mem_cons_self),
      ih fun o ho => h o (List.mem_cons_of_mem _ ho), List.all_cons]
    cases operation.isExpressible with
    | false => rfl
    | true =>
      cases operations.all Operation.isExpressible <;> rfl

/-- The document of the wire form. -/
def node (patch : Patch) : Node :=
  .array (patch.operations.map fun operation => .object operation.members)

theorem toJson_eq_node (patch : Patch) : patch.toJson = patch.node.toJson := by
  have hitems (operations : List Operation) : operations.map Operation.toJson =
      Node.itemsToJson (operations.map fun operation => .object operation.members) := by
    induction operations with
    | nil => rfl
    | cons operation operations ih =>
      rw [List.map_cons, ih, operation.toJson_eq_members]
      rfl
  rw [toJson, hitems]
  rfl

theorem ordered_node {patch : Patch} (h : ∀ operation ∈ patch.operations, operation.Obtainable) :
    patch.node.Ordered := by
  refine (Node.itemsOrdered_iff _).mpr ?_
  intro item hitem
  obtain ⟨operation, hoperation, rfl⟩ := List.mem_map.mp hitem
  exact Operation.ordered_members (h operation hoperation)

theorem ofNode_node {patch : Patch} (h : ∀ operation ∈ patch.operations, operation.Obtainable) :
    ofNode patch.node =
      if patch.operations.all Operation.isExpressible then .ok patch
      else .error .missingValue := by
  rw [node, ofNode, operationsOfNodes_members h]
  cases patch.operations.all Operation.isExpressible with
  | false => rfl
  | true =>
    obtain ⟨operations, hne⟩ := patch
    cases operations with
    | nil => exact absurd rfl hne
    | cons operation operations => rfl

theorem readJson_toJson_outcome {patch : Patch}
    (h : ∀ operation ∈ patch.operations, operation.Obtainable) :
    (readJson patch.toJson).outcome =
      if patch.operations.all Operation.isExpressible then .ok patch
      else .error .missingValue := by
  rw [readJson, toJson_eq_node, Node.ofJson_toJson patch.node (ordered_node h), Traced.outcome_bind,
    Traced.outcome_ofExcept]
  change (read patch.node).outcome = _
  rw [read_outcome, ofNode_node h]

/-- A patch is the one that its JSON value describes, if and only if no `add` or `replace` brings
null; else the value is what is missed. Patches that were read are described by their values. -/
theorem readJson_toJson (patch : Patch) (h : patch.Obtainable) :
    ((readJson patch.toJson).outcome = .ok patch ↔
      ¬∃ operation ∈ patch.operations,
        ∃ path, operation = .add path .null ∨ operation = .replace path .null) ∧
    ((∃ operation ∈ patch.operations,
        ∃ path, operation = .add path .null ∨ operation = .replace path .null) →
      (readJson patch.toJson).outcome = .error .missingValue) ∧
    (patch.Parsed → (readJson patch.toJson).outcome = .ok patch) := by
  have houtcome := readJson_toJson_outcome h.operations
  have hnull : patch.operations.all Operation.isExpressible = true ↔
      ¬∃ operation ∈ patch.operations,
        ∃ path, operation = .add path .null ∨ operation = .replace path .null := by
    simp only [List.all_eq_true, Operation.isExpressible_eq_true_iff, not_exists, not_and, not_or]
  rw [← hnull, ← not_not (a := ∃ operation ∈ patch.operations, _), ← hnull]
  refine ⟨?_, ?_, ?_⟩
  · rw [houtcome]
    cases patch.operations.all Operation.isExpressible <;> simp
  · intro hall
    rw [houtcome, if_neg hall]
  · intro hparsed
    rw [houtcome, if_pos]
    exact List.all_eq_true.mpr fun operation ho => (hparsed.operations operation ho).2

/-- A test for null that is described, before an `add` of null that is not. -/
theorem readJson_toJson_of_null :
    let patch : Patch := ⟨[.test ⟨"/a~2", ["a~2"]⟩ .null, .add Pointer.root .null], by simp⟩
    patch.Obtainable ∧ (readJson patch.toJson).outcome = .error .missingValue := by
  intro patch
  have hpointer : Pointer.Obtainable ⟨"/a~2", ["a~2"]⟩ :=
    .parse (show Pointer.parse "/a~2" = .ok ⟨"/a~2", ["a~2"]⟩ from rfl)
  have hnull : Node.null.Ordered := trivial
  have htest : (Operation.test ⟨"/a~2", ["a~2"]⟩ .null).Obtainable := by
    simp [Operation.Obtainable, Operation.path, Operation.source?, Operation.value?, hpointer,
      hnull]
  have hadd : (Operation.add Pointer.root .null).Obtainable := by
    simp [Operation.Obtainable, Operation.path, Operation.source?, Operation.value?, hnull,
      Pointer.Obtainable.root]
  have hpatch : patch.Obtainable := by
    refine .built (fun operation hoperation => ?_) (show ofOperations patch.operations = _ from rfl)
    rcases List.mem_cons.mp hoperation with rfl | hoperation
    · exact htest
    · rw [List.mem_singleton.mp hoperation]
      exact hadd
  refine ⟨hpatch, (readJson_toJson patch hpatch).2.1 ?_⟩
  exact ⟨.add Pointer.root .null, by simp [patch], Pointer.root, .inl rfl⟩

end Patch

end JsonPatch
