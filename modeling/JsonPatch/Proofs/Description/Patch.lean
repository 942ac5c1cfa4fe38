import JsonPatch.Proofs.Description.Operation

namespace JsonPatch

namespace Node

/-- An object that describes an operation. -/
def IsOperation (node : Node) : Prop := ∃ members, node = object members ∧ MeetsAll members

/-- A document that describes a patch: an operation, or operations in an array. -/
def IsPatch : Node → Prop
  | array items => items ≠ [] ∧ ∀ item ∈ items, item.IsOperation
  | node => node.IsOperation

/-- What a node says about an operation. -/
def Tells (node : Node) (operation : Operation) : Prop :=
  ∃ members, node = object members ∧ Describes members operation

/-- What a document says about the operations of a patch: one after the other what its elements say,
or what it says itself. -/
def TellsAll : Node → List Operation → Prop
  | array items, operations => List.Forall₂ Tells items operations
  | node, operations => ∃ operation, operations = [operation] ∧ node.Tells operation

/-- Why a node does not describe an operation. What is no object lacks the name of its kind. -/
inductive NotOperation : Node → PatchError → Prop where
  | noObject {node : Node} : (∀ members, node ≠ object members) → NotOperation node .missingOp
  | unmet {members : List (String × Node)} {e : PatchError} :
      FirstUnmet members Requirement.inOrder e → NotOperation (object members) e

/-- Why a document does not describe a patch. In an array the first element at fault counts. -/
inductive NotPatch : Node → PatchError → Prop where
  | empty : NotPatch (array []) .noOperations
  | scalar {node : Node} : node.IsScalar → NotPatch node .invalidRoot
  | unmet {members : List (String × Node)} {e : PatchError} :
      FirstUnmet members Requirement.inOrder e → NotPatch (object members) e
  | item {before : List Node} {item : Node} {after : List Node} {e : PatchError} :
      (∀ other ∈ before, other.IsOperation) → item.NotOperation e →
      NotPatch (array (before ++ item :: after)) e

theorem operation_eq_ok_iff (node : Node) (operation : Operation) :
    Operation.ofNode node = .ok operation ↔ node.IsOperation ∧ node.Tells operation := by
  cases node with
  | object members => simp [Operation.ofNode, ofMembers_eq_ok_iff, IsOperation, Tells]
  | _ => simp [Operation.ofNode, IsOperation]

theorem exists_operation_iff (node : Node) :
    (∃ operation, Operation.ofNode node = .ok operation) ↔ node.IsOperation := by
  cases node with
  | object members => simp [Operation.ofNode, exists_ofMembers_iff, IsOperation]
  | _ => simp [Operation.ofNode, IsOperation]

theorem operation_eq_error_iff (node : Node) (e : PatchError) :
    Operation.ofNode node = .error e ↔ node.NotOperation e := by
  constructor
  · intro h
    cases node with
    | object members => exact .unmet (ofMembers_eq_error_iff.mp h)
    | _ =>
      cases h
      exact .noObject fun members => by simp
  · intro h
    cases h with
    | unmet hunmet => exact ofMembers_eq_error_iff.mpr hunmet
    | noObject hnone =>
      cases node with
      | object members => exact absurd rfl (hnone members)
      | _ => rfl

theorem NotOperation.not_isOperation {node : Node} {e : PatchError} (h : node.NotOperation e) :
    ¬node.IsOperation := by
  intro hnode
  obtain ⟨operation, hok⟩ := (exists_operation_iff node).mpr hnode
  rw [(operation_eq_error_iff node e).mpr h] at hok
  cases hok

/-- What has a fault is no patch. -/
theorem NotPatch.not_isPatch {node : Node} {e : PatchError} (h : node.NotPatch e) :
    ¬node.IsPatch := by
  cases h with
  | empty => exact fun hpatch => hpatch.1 rfl
  | @scalar node hscalar =>
    cases node with
    | array items => exact hscalar.elim
    | object members => exact hscalar.elim
    | _ =>
      intro h
      obtain ⟨members, hnode, -⟩ := h
      cases hnode
  | unmet hunmet => exact (NotOperation.unmet hunmet).not_isOperation
  | item hbefore hitem => exact fun hpatch => hitem.not_isOperation (hpatch.2 _ (by simp))

/-- The elements of an array are read one by one, all of them. -/
theorem operations_eq_ok_iff (items : List Node) (operations : List Operation) :
    operationsOfNodes items = .ok operations ↔
      (∀ item ∈ items, item.IsOperation) ∧ List.Forall₂ Tells items operations := by
  induction items generalizing operations with
  | nil => simp [operationsOfNodes, eq_comm]
  | cons item items ih =>
    rw [operationsOfNodes, bind_eq_ok, List.forall_mem_cons, List.forall₂_cons_left_iff]
    constructor
    · intro h
      obtain ⟨operation, hfirst, hrest⟩ := h
      obtain ⟨rest, hitems, hok⟩ := bind_eq_ok.mp hrest
      cases hok
      obtain ⟨hitem, htells⟩ := (operation_eq_ok_iff item operation).mp hfirst
      obtain ⟨hall, htold⟩ := (ih rest).mp hitems
      exact ⟨⟨hitem, hall⟩, operation, rest, htells, htold, rfl⟩
    · intro h
      obtain ⟨⟨hitem, hall⟩, operation, rest, htells, htold, rfl⟩ := h
      refine ⟨operation, (operation_eq_ok_iff item operation).mpr ⟨hitem, htells⟩, ?_⟩
      exact bind_eq_ok.mpr ⟨rest, (ih rest).mpr ⟨hall, htold⟩, rfl⟩

/-- The fault of an array is that of its first element that is at fault. -/
theorem operations_eq_error_iff (items : List Node) (e : PatchError) :
    operationsOfNodes items = .error e ↔
      ∃ before item after, items = before ++ item :: after ∧
        (∀ other ∈ before, other.IsOperation) ∧ item.NotOperation e := by
  induction items with
  | nil => simp [operationsOfNodes]
  | cons first items ih =>
    rw [operationsOfNodes, bind_eq_error]
    constructor
    · intro h
      rcases h with hfault | ⟨operation, hfirst, hrest⟩
      · exact ⟨[], first, items, rfl, List.forall_mem_nil _,
          (operation_eq_error_iff first e).mp hfault⟩
      · rcases bind_eq_error.mp hrest with hitems | ⟨rest, -, hok⟩
        · obtain ⟨before, item, after, rfl, hbefore, hitem⟩ := ih.mp hitems
          refine ⟨first :: before, item, after, rfl, ?_, hitem⟩
          rw [List.forall_mem_cons]
          exact ⟨(exists_operation_iff first).mp ⟨operation, hfirst⟩, hbefore⟩
        · cases hok
    · intro h
      obtain ⟨before, item, after, hsplit, hbefore, hitem⟩ := h
      cases before with
      | nil =>
        cases hsplit
        exact .inl ((operation_eq_error_iff first e).mpr hitem)
      | cons other before =>
        cases hsplit
        rw [List.forall_mem_cons] at hbefore
        obtain ⟨operation, hfirst⟩ := (exists_operation_iff first).mpr hbefore.1
        refine .inr ⟨operation, hfirst, bind_eq_error.mpr (.inl ?_)⟩
        exact ih.mpr ⟨before, item, after, rfl, hbefore.2, hitem⟩

end Node

namespace Patch

theorem ofOperations_eq_ok_iff (operations : List Operation) (patch : Patch) :
    ofOperations operations = .ok patch ↔ patch.operations = operations := by
  constructor
  · exact operations_of_ofOperations
  · intro h
    subst h
    obtain ⟨operations, hnonempty⟩ := patch
    cases operations with
    | nil => exact absurd rfl hnonempty
    | cons operation operations => rfl

/-- Only from no operations no patch is made. -/
theorem ofOperations_eq_error_iff (operations : List Operation) (e : PatchError) :
    ofOperations operations = .error e ↔ operations = [] ∧ e = .noOperations := by
  cases operations with
  | nil => simp [ofOperations, eq_comm]
  | cons operation operations => simp [ofOperations]

/-- A document is read as a patch exactly when it is one and tells the operations. -/
theorem ofNode_eq_ok_iff (node : Node) (patch : Patch) :
    ofNode node = .ok patch ↔ node.IsPatch ∧ node.TellsAll patch.operations := by
  cases node with
  | object members =>
    simp only [ofNode, bind_eq_ok, ofOperations_eq_ok_iff]
    constructor
    · intro h
      obtain ⟨operation, hoperation, hpatch⟩ := h
      obtain ⟨hnode, htells⟩ := (Node.operation_eq_ok_iff (.object members) operation).mp hoperation
      exact ⟨hnode, operation, hpatch, htells⟩
    · intro h
      obtain ⟨hnode, operation, hpatch, htells⟩ := h
      exact ⟨operation, (Node.operation_eq_ok_iff (.object members) operation).mpr
        ⟨hnode, htells⟩, hpatch⟩
  | array items =>
    simp only [ofNode, bind_eq_ok, ofOperations_eq_ok_iff, exists_eq_right',
      Node.operations_eq_ok_iff]
    constructor
    · intro h
      obtain ⟨hall, htold⟩ := h
      refine ⟨⟨?_, hall⟩, htold⟩
      intro hnone
      subst hnone
      exact patch.nonempty (List.forall₂_nil_left_iff.mp htold)
    · intro h
      obtain ⟨⟨-, hall⟩, htold⟩ := h
      exact ⟨hall, htold⟩
  | _ => simp [ofNode, Node.IsPatch, Node.IsOperation]

/-- Each document that is no patch is told why. -/
theorem ofNode_eq_error_iff (node : Node) (e : PatchError) :
    ofNode node = .error e ↔ node.NotPatch e := by
  cases node with
  | object members =>
    simp only [ofNode, bind_eq_error, ofOperations_eq_error_iff]
    constructor
    · intro h
      rcases h with hfault | ⟨operation, -, hnone, -⟩
      · exact .unmet (ofMembers_eq_error_iff.mp hfault)
      · cases hnone
    · intro h
      cases h with
      | scalar hscalar => exact hscalar.elim
      | unmet hunmet => exact .inl (ofMembers_eq_error_iff.mpr hunmet)
  | array items =>
    simp only [ofNode, bind_eq_error, ofOperations_eq_error_iff, Node.operations_eq_error_iff]
    constructor
    · intro h
      rcases h with ⟨before, item, after, rfl, hbefore, hitem⟩ | ⟨_, hitems, rfl, rfl⟩
      · exact .item hbefore hitem
      · obtain ⟨-, htold⟩ := (Node.operations_eq_ok_iff items []).mp hitems
        obtain rfl := List.forall₂_nil_right_iff.mp htold
        exact .empty
    · intro h
      cases h with
      | empty => exact .inr ⟨[], rfl, rfl, rfl⟩
      | scalar hscalar => exact hscalar.elim
      | item hbefore hitem => exact .inl ⟨_, _, _, rfl, hbefore, hitem⟩
  | _ =>
    constructor
    · intro h
      cases h
      exact .scalar trivial
    · intro h
      cases h
      rfl

theorem exists_ofNode_iff (node : Node) : (∃ patch, ofNode node = .ok patch) ↔ node.IsPatch := by
  constructor
  · intro h
    obtain ⟨patch, h⟩ := h
    exact ((ofNode_eq_ok_iff node patch).mp h).1
  · intro hpatch
    cases h : ofNode node with
    | ok patch => exact ⟨patch, rfl⟩
    | error e => exact absurd hpatch ((ofNode_eq_error_iff node e).mp h).not_isPatch

/-- What is read depends on what is described alone. -/
theorem read_congr {node other : Node} (h : ofNode node = ofNode other) :
    read node = read other := by
  rw [read, read, h]

theorem ofNode_singleton (members : List (String × Node)) :
    ofNode (.array [.object members]) = ofNode (.object members) := by
  simp only [ofNode, operationsOfNodes, Operation.ofNode]
  cases Operation.ofMembers members <;> rfl

theorem operationsOfNodes_congr {item other : Node}
    (h : Operation.ofNode item = Operation.ofNode other) (before after : List Node) :
    operationsOfNodes (before ++ item :: after) = operationsOfNodes (before ++ other :: after) := by
  induction before with
  | nil => rw [List.nil_append, List.nil_append, operationsOfNodes, operationsOfNodes, h]
  | cons first before ih =>
    rw [List.cons_append, List.cons_append, operationsOfNodes, operationsOfNodes, ih]

/-- A document is read as a patch exactly if it describes one, and has otherwise one fault, the
first in the order of the requirements. -/
theorem read_accepts_described :
    (∀ node : Node, (∃ patch, (read node).outcome = .ok patch) ↔ node.IsPatch) ∧
    (∀ (node : Node) (patch : Patch), (read node).outcome = .ok patch ↔
      node.IsPatch ∧ node.TellsAll patch.operations) ∧
    (∀ (node : Node) (e : PatchError), (read node).outcome = .error e ↔ node.NotPatch e) ∧
    (∀ members : List (String × Node),
      read (.array [.object members]) = read (.object members)) ∧
    (∀ members other : List (String × Node), AgreeOnUsed members other →
      read (.object members) = read (.object other) ∧
      ∀ before after : List Node, read (.array (before ++ .object members :: after)) =
        read (.array (before ++ .object other :: after))) := by
  simp only [read_outcome]
  refine ⟨exists_ofNode_iff, ofNode_eq_ok_iff, ofNode_eq_error_iff, ?_, ?_⟩
  · intro members
    exact read_congr (ofNode_singleton members)
  · intro members other hagree
    have hoperation : Operation.ofNode (.object members) = Operation.ofNode (.object other) :=
      ofMembers_congr hagree
    constructor
    · apply read_congr
      rw [ofNode, ofNode, ofMembers_congr hagree]
    · intro before after
      apply read_congr
      rw [ofNode, ofNode, operationsOfNodes_congr hoperation]

/-- A removal that brings a value and a source, which it has no use for, and behind it a move
without a source. -/
theorem read_accepts_described_of_removal :
    let plain : List (String × Node) := [("op", .string "remove"), ("path", .string "/a")]
    let laden : List (String × Node) := [("from", .string "b"), ("op", .string "remove"),
      ("path", .string "/a"), ("value", .null)]
    let moving : List (String × Node) := [("op", .string "move"), ("path", .string "")]
    AgreeOnUsed laden plain ∧ read (.object laden) = read (.object plain) ∧
      (∃ patch, (read (.object laden)).outcome = .ok patch) ∧
      (read (.array [.object laden, .object moving])).outcome = .error .missingFrom := by
  intro plain laden moving
  have hkind (kind : OperationKind) (hnamed : KindAt laden kind) : kind = .remove :=
    hnamed.unique (show KindAt laden .remove from rfl)
  have hagree : AgreeOnUsed laden plain := by
    refine ⟨rfl, rfl, ?_, ?_⟩
    · intro kind hnamed hmoves
      rw [hkind kind hnamed] at hmoves
      simp at hmoves
    · intro kind hnamed hcarries
      rw [hkind kind hnamed] at hcarries
      simp at hcarries
  have hread := (read_accepts_described.2.2.2.2 laden plain hagree).1
  have hplain : (read (.object plain)).outcome = .ok ⟨[.remove ⟨"/a", ["a"]⟩], by simp⟩ := rfl
  have hmoving : Node.NotOperation (.object moving) .missingFrom :=
    (Node.operation_eq_error_iff _ _).mp rfl
  have hladen : Node.IsOperation (.object laden) :=
    (Node.exists_operation_iff _).mp ⟨.remove ⟨"/a", ["a"]⟩, rfl⟩
  refine ⟨hagree, hread, ⟨_, hread ▸ hplain⟩, ?_⟩
  refine (read_accepts_described.2.2.1 _ _).mpr ?_
  change Node.NotPatch (.array ([.object laden] ++ .object moving :: [])) .missingFrom
  exact .item (by simpa using hladen) hmoving

end Patch

end JsonPatch
