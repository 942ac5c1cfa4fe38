import JsonPatch.Check
import JsonPatch.Proofs.Rereading
import JsonPatch.Proofs.Wire

namespace JsonPatch

namespace Operation

/-- The operation with each number of its value read from its text. -/
def reread? : Operation → Option Operation
  | add path value => value.reread?.map (add path)
  | replace path value => value.reread?.map (replace path)
  | test path expected => expected.reread?.map (test path)
  | operation => some operation

/-- Whether the value of an operation, if it has one, can be written and read: three containers are
left for it below the limit, and all doubles are read as equal ones. -/
def IsDurable (operation : Operation) : Prop :=
  ∀ value ∈ operation.value?, value.depth ≤ 125 ∧ ∀ x ∈ value.doubles, x.IsStable

theorem reread?_members (operation : Operation) :
    (Node.object operation.members).reread? =
      operation.reread?.map fun operation => .object operation.members := by
  cases operation with
  | add path value =>
    change (Node.object [("op", _), ("path", _), ("value", value)]).reread? = _
    simp only [Node.reread?, Node.rereadMembers?, reread?]
    cases value.reread? <;> rfl
  | remove path => rfl
  | replace path value =>
    change (Node.object [("op", _), ("path", _), ("value", value)]).reread? = _
    simp only [Node.reread?, Node.rereadMembers?, reread?]
    cases value.reread? <;> rfl
  | move source path => rfl
  | copy source path => rfl
  | test path expected =>
    change (Node.object [("op", _), ("path", _), ("value", expected)]).reread? = _
    simp only [Node.reread?, Node.rereadMembers?, reread?]
    cases expected.reread? <;> rfl

theorem isNull_reread? {node again : Node} (h : node.reread? = some again) :
    again.isNull = node.isNull := by
  cases node with
  | number n =>
    obtain ⟨_, -, rfl⟩ := Option.map_eq_some_iff.mp h
    rfl
  | array items =>
    obtain ⟨_, -, rfl⟩ := Option.map_eq_some_iff.mp h
    rfl
  | object members =>
    obtain ⟨_, -, rfl⟩ := Option.map_eq_some_iff.mp h
    rfl
  | _ =>
    cases h
    rfl

/-- An operation with its numbers read again can be built and described as before. -/
theorem obtainable_reread? {operation again : Operation} (h : operation.reread? = some again)
    (hobtainable : operation.Obtainable) :
    again.Obtainable ∧ again.isExpressible = operation.isExpressible := by
  obtain ⟨hpath, hsource, hvalue⟩ := hobtainable
  have hvalued {value other : Node} (hother : value.reread? = some other)
      (hmem : value ∈ operation.value?) : ∀ v ∈ some other, v.Ordered := by
    intro v hv
    cases hv
    exact Node.ordered_reread? value (hvalue value hmem) hother
  cases operation with
  | add path value =>
    obtain ⟨other, hother, rfl⟩ := Option.map_eq_some_iff.mp h
    refine ⟨⟨hpath, hsource, hvalued hother rfl⟩, ?_⟩
    simp [isExpressible, kind, value?, isNull_reread? hother]
  | replace path value =>
    obtain ⟨other, hother, rfl⟩ := Option.map_eq_some_iff.mp h
    refine ⟨⟨hpath, hsource, hvalued hother rfl⟩, ?_⟩
    simp [isExpressible, kind, value?, isNull_reread? hother]
  | test path expected =>
    obtain ⟨other, hother, rfl⟩ := Option.map_eq_some_iff.mp h
    exact ⟨⟨hpath, hsource, hvalued hother rfl⟩, rfl⟩
  | _ =>
    cases h
    exact ⟨⟨hpath, hsource, hvalue⟩, rfl⟩

theorem exists_map_same_iff (make : Node → Operation) (value : Node)
    (hmake : ∀ other, (make other).same (make value) = other.same value) :
    (∃ again, value.reread?.map make = some again ∧ again.same (make value) = true) ↔
      ∀ x ∈ value.doubles, x.IsStable := by
  rw [← Node.exists_reread?_same_iff value]
  constructor
  · intro h
    obtain ⟨_, hagain, hsame⟩ := h
    obtain ⟨other, hother, rfl⟩ := Option.map_eq_some_iff.mp hagain
    exact ⟨other, hother, by rwa [hmake] at hsame⟩
  · intro h
    obtain ⟨other, hother, hsame⟩ := h
    exact ⟨make other, by rw [hother, Option.map_some], by rwa [hmake]⟩

/-- Read again, an operation is equal exactly when the doubles of its value are. -/
theorem exists_reread?_same_iff (operation : Operation) :
    (∃ again, operation.reread? = some again ∧ again.same operation = true) ↔
      ∀ value ∈ operation.value?, ∀ x ∈ value.doubles, x.IsStable := by
  have hself (p : Pointer) : p.same p = true := beq_self_eq_true p.tokens
  have hvalued (make : Node → Operation) (value : Node)
      (hmake : ∀ other, (make other).same (make value) = other.same value) :
      (∃ again, value.reread?.map make = some again ∧ again.same (make value) = true) ↔
        ∀ v ∈ some value, ∀ x ∈ v.doubles, x.IsStable := by
    rw [exists_map_same_iff make value hmake]
    simp
  cases operation with
  | add path value => exact hvalued (add path) value fun _ => by simp [same, hself]
  | replace path value => exact hvalued (replace path) value fun _ => by simp [same, hself]
  | test path expected => exact hvalued (test path) expected fun _ => by simp [same, hself]
  | _ => simp [reread?, value?, same, hself]

end Operation

namespace Patch

/-- Whether every operation of a patch can be written and read. -/
def IsDurable (patch : Patch) : Prop := ∀ operation ∈ patch.operations, operation.IsDurable

theorem rereadItems?_members (operations : List Operation) :
    Node.rereadItems? (operations.map fun operation => .object operation.members) =
      (operations.mapM Operation.reread?).map fun operations =>
        operations.map fun operation => .object operation.members := by
  induction operations with
  | nil => rfl
  | cons operation operations ih =>
    rw [List.map_cons, Node.rereadItems?, Operation.reread?_members, ih, List.mapM_cons]
    cases operation.reread? with
    | none => rfl
    | some again => cases operations.mapM Operation.reread? <;> rfl

theorem obtainable_mapM {operations again : List Operation}
    (h : operations.mapM Operation.reread? = some again)
    (hall : ∀ operation ∈ operations,
      operation.Obtainable ∧ operation.isExpressible = true) :
    ∀ operation ∈ again, operation.Obtainable ∧ operation.isExpressible = true := by
  induction operations generalizing again with
  | nil =>
    cases h
    simp
  | cons operation operations ih =>
    rw [List.mapM_cons] at h
    obtain ⟨first, hfirst, hrest⟩ := Option.bind_eq_some_iff.mp h
    obtain ⟨others, hothers, hcons⟩ := Option.bind_eq_some_iff.mp hrest
    cases hcons
    obtain ⟨hobtainable, hexpressible⟩ := hall operation List.mem_cons_self
    obtain ⟨hfirst, hkept⟩ := Operation.obtainable_reread? hfirst hobtainable
    intro o ho
    rcases List.mem_cons.mp ho with rfl | ho
    · exact ⟨hfirst, hkept.trans hexpressible⟩
    · exact ih hothers (fun o ho => hall o (List.mem_cons_of_mem _ ho)) o ho

theorem ne_nil_of_mapM {patch : Patch} {operations : List Operation}
    (h : patch.operations.mapM Operation.reread? = some operations) : operations ≠ [] := by
  intro hnil
  obtain ⟨first, rest, hcons⟩ := List.exists_cons_of_ne_nil patch.nonempty
  rw [hnil, hcons, List.mapM_cons] at h
  obtain ⟨_, -, hrest⟩ := Option.bind_eq_some_iff.mp h
  obtain ⟨_, -, hpure⟩ := Option.bind_eq_some_iff.mp hrest
  cases hpure

theorem exists_mapM_same_iff (operations : List Operation) :
    (∃ again, operations.mapM Operation.reread? = some again ∧
        sameOperations again operations = true) ↔
      ∀ operation ∈ operations, ∀ value ∈ operation.value?, ∀ x ∈ value.doubles, x.IsStable := by
  induction operations with
  | nil => simp [sameOperations]
  | cons operation operations ih =>
    rw [List.forall_mem_cons, ← Operation.exists_reread?_same_iff operation, ← ih, List.mapM_cons]
    change (∃ again, (do
      let first ← operation.reread?
      some (first :: (← operations.mapM Operation.reread?))) = some again ∧ _) ↔ _
    refine exists_cons_iff fun again rest => ?_
    rw [sameOperations, Bool.and_eq_true]

theorem depth_node_le_iff (patch : Patch) :
    patch.node.depth ≤ Json.maxDepth ↔
      ∀ operation ∈ patch.operations, ∀ value ∈ operation.value?, value.depth ≤ 125 := by
  have hoperation (operation : Operation) : (Node.object operation.members).depth ≤ 126 ↔
      ∀ value ∈ operation.value?, value.depth ≤ 125 := by
    rw [Node.depth, Nat.succ_le_succ_iff]
    cases operation <;>
      simp [Operation.members, Operation.source?, Operation.value?, Node.membersDepth, Node.depth]
  rw [node, Node.depth, Json.maxDepth, Nat.succ_le_succ_iff, Node.itemsDepth_le_iff,
    List.forall_mem_map]
  simp only [hoperation]

/-- What the text of a patch is read as, provided that its operations can be built and described. -/
theorem readText_text_eq_ok_iff {patch : Patch}
    (hall : ∀ operation ∈ patch.operations,
      operation.Obtainable ∧ operation.isExpressible = true) (again : Patch) :
    (readText .json patch.text).outcome = .ok again ↔
      (∀ operation ∈ patch.operations, ∀ value ∈ operation.value?, value.depth ≤ 125) ∧
        patch.operations.mapM Operation.reread? = some again.operations := by
  have htext : patch.text = patch.node.text := by rw [text, toJson_eq_node, Node.text]
  have hordered : patch.node.Ordered := ordered_node fun operation ho => (hall operation ho).1
  have hnode (operations : List Operation) (h : patch.operations.mapM Operation.reread? =
      some operations) (hne : operations ≠ []) :
      ofNode (.array (operations.map fun operation => .object operation.members)) =
        .ok ⟨operations, hne⟩ := by
    have hkept := obtainable_mapM h hall
    have hread := @ofNode_node ⟨operations, hne⟩ fun operation ho => (hkept operation ho).1
    rwa [if_pos (List.all_eq_true.mpr fun operation ho => (hkept operation ho).2)] at hread
  rw [readText_eq_ok_iff, htext, ← depth_node_le_iff]
  change (∃ node, Node.ofJsonText patch.node.text = .ok node ∧ _) ↔ _
  simp only [Node.ofJsonText_text_eq_ok_iff hordered]
  rw [node, Node.reread?, rereadItems?_members]
  constructor
  · intro h
    obtain ⟨found, ⟨hdepth, hfound⟩, hagain⟩ := h
    obtain ⟨items, hitems, rfl⟩ := Option.map_eq_some_iff.mp hfound
    obtain ⟨operations, hoperations, rfl⟩ := Option.map_eq_some_iff.mp hitems
    rw [hnode operations hoperations (ne_nil_of_mapM hoperations)] at hagain
    cases hagain
    exact ⟨hdepth, hoperations⟩
  · intro h
    obtain ⟨hdepth, hagain⟩ := h
    refine ⟨_, ⟨hdepth, by rw [hagain]; rfl⟩, ?_⟩
    exact hnode again.operations hagain again.nonempty

/-- The text of a patch is read as an equal patch exactly when every operation is durable. -/
theorem exists_readText_text_iff {patch : Patch}
    (hall : ∀ operation ∈ patch.operations,
      operation.Obtainable ∧ operation.isExpressible = true) :
    (∃ again, (readText .json patch.text).outcome = .ok again ∧ again.same patch = true) ↔
      patch.IsDurable := by
  have hdurable : patch.IsDurable ↔
      (∀ operation ∈ patch.operations, ∀ value ∈ operation.value?, value.depth ≤ 125) ∧
        ∀ operation ∈ patch.operations, ∀ value ∈ operation.value?,
          ∀ x ∈ value.doubles, x.IsStable := by
    simp only [IsDurable, Operation.IsDurable, forall_and]
  rw [hdurable, ← exists_mapM_same_iff patch.operations]
  simp only [readText_text_eq_ok_iff hall]
  constructor
  · intro h
    obtain ⟨again, ⟨hdepth, hagain⟩, hsame⟩ := h
    exact ⟨hdepth, again.operations, hagain, hsame⟩
  · intro h
    obtain ⟨hdepth, operations, hoperations, hsame⟩ := h
    exact ⟨⟨operations, ne_nil_of_mapM hoperations⟩, ⟨hdepth, hoperations⟩, hsame⟩

end Patch

namespace Check

theorem survives_eq_ok_iff (patch : Patch) :
    (survives patch).outcome = .ok () ↔
      ∃ again, (Patch.readText .json patch.text).outcome = .ok again ∧
        again.same patch = true := by
  unfold survives
  simp only [Traced.outcome_bind, Traced.outcome_attempt]
  cases (Patch.readText .json patch.text).outcome with
  | error e =>
    change Except.error Violation.patchNotRead = .ok () ↔ _
    simp
  | ok again =>
    change (if again.same patch then (pure () : Traced Violation Unit)
      else Traced.fail (.patchChanged patch.text)).outcome = .ok () ↔ _
    cases hsame : again.same patch <;> simp [hsame]

theorem survivesIfRead_eq_ok_iff (outcome : Except PatchError Patch) :
    (survivesIfRead outcome).outcome = .ok () ↔
      ∀ patch, outcome = .ok patch → (survives patch).outcome = .ok () := by
  cases outcome with
  | error e => simp [survivesIfRead]
  | ok patch => simp [survivesIfRead]

theorem patchText_eq_ok_iff (text : String) :
    (patchText text).outcome = .ok () ↔
      ∀ format patch, (Patch.readText format text).outcome = .ok patch →
        (survives patch).outcome = .ok () := by
  have hboth : (patchText text).outcome = .ok () ↔
      (survivesIfRead (Patch.readText .json text).outcome).outcome = .ok () ∧
        (survivesIfRead (Patch.readText .yaml text).outcome).outcome = .ok () := by
    unfold patchText
    simp only [Traced.outcome_bind, Traced.outcome_attempt]
    change (survivesIfRead (Patch.readText .json text).outcome).outcome >>= _ = .ok () ↔ _
    rw [bind_eq_ok]
    constructor
    · intro h
      obtain ⟨⟨⟩, hjson, hyaml⟩ := h
      exact ⟨hjson, hyaml⟩
    · intro h
      obtain ⟨hjson, hyaml⟩ := h
      exact ⟨(), hjson, hyaml⟩
  rw [hboth, survivesIfRead_eq_ok_iff, survivesIfRead_eq_ok_iff]
  constructor
  · intro h format
    cases format with
    | json => exact h.1
    | yaml => exact h.2
  · intro h
    exact ⟨h .json, h .yaml⟩

theorem survives_of_not_read {patch : Patch}
    (h : ∀ again, (Patch.readText .json patch.text).outcome ≠ .ok again) :
    (survives patch).outcome = .error .patchNotRead := by
  unfold survives
  simp only [Traced.outcome_bind, Traced.outcome_attempt]
  cases hread : (Patch.readText .json patch.text).outcome with
  | error e => rfl
  | ok again => exact absurd hread (h again)

theorem patchText_of_json {text : String} {patch : Patch} {violation : Violation}
    (hread : (Patch.readText .json text).outcome = .ok patch)
    (hsurvives : (survives patch).outcome = .error violation) :
    (patchText text).outcome = .error violation := by
  unfold patchText
  simp only [Traced.outcome_bind, Traced.outcome_attempt]
  change (survivesIfRead (Patch.readText .json text).outcome).outcome >>= _ = .error violation
  rw [hread, survivesIfRead, hsurvives]
  rfl

theorem text?_toByteArray (text : String) : text? text.toByteArray.data.toList = some text := by
  have hbytes : (⟨text.toByteArray.data.toList.toArray⟩ : ByteArray) = text.toByteArray := rfl
  rw [text?, hbytes, String.fromUTF8?, dif_pos text.isValidUTF8]
  rfl

/-- The patches that are read from bytes survive being written if and only if they are durable, and
the check finds nothing exactly then. -/
theorem patch_ok_iff_durable (bytes : List UInt8) :
    (∀ text format patch, text? bytes = some text →
      (Patch.readText format text).outcome = .ok patch →
        ((∃ again, (Patch.readText .json patch.text).outcome = .ok again ∧
          again.same patch = true) ↔ patch.IsDurable)) ∧
    ((Check.patch bytes).outcome = .ok () ↔
      ∀ text format patch, text? bytes = some text →
        (Patch.readText format text).outcome = .ok patch → patch.IsDurable) := by
  have hread : ∀ text format patch, text? bytes = some text →
      (Patch.readText format text).outcome = .ok patch →
        ((∃ again, (Patch.readText .json patch.text).outcome = .ok again ∧
          again.same patch = true) ↔ patch.IsDurable) := by
    intro text format patch _ hpatch
    exact Patch.exists_readText_text_iff (Patch.Parsed.text hpatch).operations
  refine ⟨hread, ?_⟩
  unfold Check.patch
  cases htext : text? bytes with
  | none => simp
  | some text =>
    dsimp only
    rw [patchText_eq_ok_iff]
    constructor
    · intro h found format patch hfound hpatch
      cases hfound
      exact (hread text format patch htext hpatch).mp
        ((survives_eq_ok_iff patch).mp (h format patch hpatch))
    · intro h format patch hpatch
      exact (survives_eq_ok_iff patch).mpr
        ((hread text format patch htext hpatch).mpr (h text format patch rfl hpatch))

/-- A document of arrays in arrays, one more than the number given. -/
def nested : Nat → Node
  | 0 => .array []
  | n + 1 => .array [nested n]

theorem depth_nested (n : Nat) : (nested n).depth = n + 1 := by
  induction n with
  | zero => rfl
  | succ n ih => rw [nested, Node.depth, Node.itemsDepth, Node.itemsDepth, ih, Nat.max_zero]

theorem ordered_nested (n : Nat) : (nested n).Ordered := by
  induction n with
  | zero => trivial
  | succ n ih => exact ⟨ih, trivial⟩

theorem reread?_nested (n : Nat) : (nested n).reread? = some (nested n) := by
  induction n with
  | zero => rfl
  | succ n ih =>
    rw [nested, Node.reread?, Node.rereadItems?, ih]
    rfl

/-- One operation that nests 127 containers is read, and its patch nests one more. -/
theorem patch_not_read_of_nested :
    let text := "\x7b\"op\":\"add\",\"path\":\"/a\",\"value\":" ++
      String.ofList (List.replicate 126 '[' ++ List.replicate 126 ']') ++ "\x7d"
    (∃ patch, (Patch.readText .json text).outcome = .ok patch) ∧
      (Check.patch text.toByteArray.data.toList).outcome = .error .patchNotRead := by
  intro text
  let operation := Operation.add ⟨"/a", ["a"]⟩ (nested 125)
  let patch : Patch := ⟨[operation], by simp⟩
  have hpointer : Pointer.Obtainable ⟨"/a", ["a"]⟩ :=
    .parse (show Pointer.parse "/a" = .ok ⟨"/a", ["a"]⟩ from rfl)
  have hoperation : operation.Obtainable := by
    simp [operation, Operation.Obtainable, Operation.path, Operation.source?, Operation.value?,
      hpointer, ordered_nested 125]
  have htext : text = (Node.object operation.members).text := by decide +kernel
  have hdepth : (Node.object operation.members).depth ≤ Json.maxDepth := by
    change max 0 (max 0 (max (nested 125).depth 0)) + 1 ≤ 127
    rw [depth_nested]
    decide
  have hreread : (Node.object operation.members).reread? =
      some (Node.object operation.members) := by
    change (Node.object [("op", .string "add"), ("path", .string "/a"),
      ("value", nested 125)]).reread? = _
    simp only [Node.reread?, Node.rereadMembers?, reread?_nested]
    rfl
  have hnode : Node.ofJsonText text = .ok (.object operation.members) := by
    rw [htext]
    exact (Node.ofJsonText_text_eq_ok_iff (Operation.ordered_members hoperation) _).mpr
      ⟨hdepth, hreread⟩
  have hpatch : Patch.ofNode (.object operation.members) = .ok patch := by
    rw [Patch.ofNode, Operation.ofMembers_members hoperation]
    rfl
  have hread : (Patch.readText .json text).outcome = .ok patch :=
    (Patch.readText_eq_ok_iff .json text patch).mpr ⟨_, hnode, hpatch⟩
  have hall := (Patch.Parsed.text hread).operations
  have hdeep : ∀ again, (Patch.readText .json patch.text).outcome ≠ .ok again := by
    intro again hagain
    have hshallow := ((Patch.readText_text_eq_ok_iff hall again).mp hagain).1 _
      List.mem_cons_self (nested 125) rfl
    rw [depth_nested] at hshallow
    omega
  refine ⟨⟨patch, hread⟩, ?_⟩
  rw [Check.patch, text?_toByteArray]
  exact patchText_of_json hread (survives_of_not_read hdeep)

end Check

end JsonPatch
