import JsonPatch.Proofs.Ordered
import JsonPatch.Proofs.Unguarded.Operation

namespace JsonPatch.Unguarded

/-- Why a run halts: a fault, which is an answer, or a step that has no result. -/
inductive Halt (ε : Type) where
  | fault (cause : ε)
  | outOfRange (position length : Nat)
  | noSource (kind : OperationKind)

def Halt.map {ε δ : Type} (f : ε → δ) : Halt ε → Halt δ
  | .fault cause => .fault (f cause)
  | .outOfRange position length => .outOfRange position length
  | .noSource kind => .noSource kind

variable {ε δ α β : Type}

/-- A computation that may fault, but has all its steps. -/
def inRange (x : Except ε α) : Except (Halt ε) α := x.mapError .fault

theorem inRange_bind (x : Except ε α) (f : α → Except ε β) :
    inRange (x >>= f) = inRange x >>= fun value => inRange (f value) := by
  cases x <;> rfl

theorem inRange_mapError (f : ε → δ) (x : Except ε α) :
    inRange (x.mapError f) = (inRange x).mapError (.map f) := by
  cases x <;> rfl

/-- A run without a missing step ends with a fault, if it ends early. -/
theorem eq_fault_of_inRange {x : Except ε α} {halt : Halt ε} (h : inRange x = .error halt) :
    ∃ cause, x = .error cause ∧ halt = .fault cause := by
  cases x with
  | ok value => cases h
  | error cause =>
    cases h
    exact ⟨cause, rfl, rfl⟩

def itemAt (items : List α) (i : Nat) : Except (Halt ε) α :=
  match items[i]? with
  | some item => .ok item
  | none => .error (.outOfRange i items.length)

def setAt (items : List α) (i : Nat) (item : α) : Except (Halt ε) (List α) :=
  if i < items.length then .ok (items.set i item) else .error (.outOfRange i items.length)

def insertAt (items : List α) (i : Nat) (item : α) : Except (Halt ε) (List α) :=
  if i ≤ items.length then .ok (items.insertIdx i item) else .error (.outOfRange i items.length)

def removeAt (items : List α) (i : Nat) : Except (Halt ε) (List α) :=
  if i < items.length then .ok (items.eraseIdx i) else .error (.outOfRange i items.length)

theorem itemAt_of_lt {items : List α} {i : Nat} (h : i < items.length) :
    (itemAt items i : Except (Halt ε) α) = .ok items[i] := by
  simp only [itemAt, List.getElem?_eq_getElem h]

theorem setAt_of_lt {items : List α} {i : Nat} (h : i < items.length) (item : α) :
    (setAt items i item : Except (Halt ε) (List α)) = .ok (items.set i item) := if_pos h

theorem removeAt_of_lt {items : List α} {i : Nat} (h : i < items.length) :
    (removeAt items i : Except (Halt ε) (List α)) = .ok (items.eraseIdx i) := if_pos h

/-- The position of the element that a token names. -/
def existingIndex (raw token : String) (length : Nat) : Except LocationError Nat :=
  match Pointer.Index.ofToken token with
  | .position i =>
    if i < length then .ok i else .error (.indexOutOfBounds raw token length)
  | .pastEnd => .error (.indexOutOfBounds raw token length)
  | .tooLarge => .error (.indexOutOfBounds raw token maxLength)
  | .malformed => .error (.invalidIndex raw token)

theorem existingIndex_eq (raw token : String) (length : Nat) :
    existingIndex raw token length = Fin.val <$> elementIndex raw token length := by
  unfold existingIndex elementIndex
  cases Pointer.Index.ofToken token with
  | position i =>
    by_cases hi : i < length
    · simp only [if_pos hi, dif_pos hi]
      rfl
    · simp only [if_neg hi, dif_neg hi]
      rfl
  | pastEnd => rfl
  | tooLarge => rfl
  | malformed => rfl

/-- What is done at the position of an element is done in range. -/
theorem existingIndex_bind (raw token : String) (items : List Node)
    {f : Nat → Except (Halt LocationError) β} {g : Fin items.length → Except LocationError β}
    (h : ∀ i : Fin items.length, f i = inRange (g i)) :
    inRange (existingIndex raw token items.length) >>= f =
      inRange (elementIndex raw token items.length >>= g) := by
  rw [existingIndex_eq]
  cases elementIndex raw token items.length with
  | error cause => rfl
  | ok i => exact h i

def child (raw token : String) : Node → Except (Halt LocationError) Node
  | .object members =>
    match members.lookup token with
    | some value => .ok value
    | none => .error (.fault (.missingMember raw token))
  | .array items => do
    let i ← inRange (existingIndex raw token items.length)
    itemAt items i
  | node => .error (.fault (.notAContainer raw node.kindName))

def follow (raw : String) : List String → Node → Except (Halt LocationError) Node
  | [], node => .ok node
  | token :: tokens, node => do follow raw tokens (← child raw token node)

def lookup (node : Node) (pointer : Pointer) : Except (Halt LocationError) Node :=
  follow pointer.raw pointer.tokens node

theorem child_eq (raw token : String) (node : Node) :
    child raw token node = inRange (Node.child raw token node) := by
  cases node with
  | object members =>
    simp only [child, Node.child]
    cases members.lookup token <;> rfl
  | array items =>
    refine existingIndex_bind raw token items ?_
    intro i
    exact itemAt_of_lt i.isLt
  | _ => rfl

/-- Every element on the way of a lookup is in range. -/
theorem lookup_eq (node : Node) (pointer : Pointer) :
    lookup node pointer = inRange (node.lookup pointer) := by
  rw [lookup, Node.lookup]
  induction pointer.tokens generalizing node with
  | nil => rfl
  | cons token tokens ih =>
    rw [follow, Node.follow, child_eq, inRange_bind]
    exact bind_congr ih

/-- A change of the container that holds the last token of a pointer. -/
abbrev Change := (container : Node) → (token : String) → Except (Halt LocationError) Node

/-- Goes down along the tokens of a pointer from a depth on, and calls the change at the last of
them. The part on the way is taken out of its container while it is changed. -/
def navigate (raw : String) (tokens : List String) (change : Change) (depth : Nat) (node : Node) :
    Except (Halt LocationError) Node :=
  if h : depth < tokens.length then
    let token := tokens[depth]
    if depth + 1 = tokens.length then change node token
    else
      match node with
      | .array items => do
        let i ← inRange (existingIndex raw token items.length)
        let item ← itemAt items i
        let items ← setAt items i .null
        let item ← navigate raw tokens change (depth + 1) item
        let items ← setAt items i item
        .ok (.array items)
      | .object members =>
        match members.lookup token with
        | none => .error (.fault (.missingMember raw token))
        | some value => do
          let members := Members.erase token members
          let value ← navigate raw tokens change (depth + 1) value
          .ok (.object (Members.insert token value members))
      | node => .error (.fault (.notAContainer raw node.kindName))
  else .error (.outOfRange depth tokens.length)
termination_by tokens.length - depth

/-- At the root there is no token to begin with, so operations do not begin there. -/
theorem navigate_root (raw : String) (change : Change) (document : Node) :
    navigate raw [] change 0 document = .error (.outOfRange 0 0) := by
  rw [navigate]
  rfl

/-- Where tokens are left at a depth, the depth is that of the first of them. -/
theorem exists_getElem_of_drop {tokens rest : List String} {depth : Nat} {token : String}
    (h : tokens.drop depth = token :: rest) :
    ∃ hlt : depth < tokens.length, tokens[depth] = token ∧ tokens.drop (depth + 1) = rest := by
  have hlength := congrArg List.length h
  simp only [List.length_drop, List.length_cons] at hlength
  have hlt : depth < tokens.length := by omega
  rw [List.drop_eq_getElem_cons hlt] at h
  exact ⟨hlt, List.cons.inj h⟩

theorem navigate_last {tokens : List String} {depth : Nat} {token : String}
    (h : tokens.drop depth = [token]) (raw : String) (change : Change) (node : Node) :
    navigate raw tokens change depth node = change node token := by
  obtain ⟨hlt, rfl, hrest⟩ := exists_getElem_of_drop h
  have hend := List.drop_eq_nil_iff.mp hrest
  have hlast : depth + 1 = tokens.length := by omega
  rw [navigate, dif_pos hlt]
  exact if_pos hlast

theorem navigate_object {tokens rest : List String} {depth : Nat} {token next : String}
    (h : tokens.drop depth = token :: next :: rest) (raw : String) (change : Change)
    (members : List (String × Node)) :
    navigate raw tokens change depth (.object members) =
      match members.lookup token with
      | none => .error (.fault (.missingMember raw token))
      | some value =>
        navigate raw tokens change (depth + 1) value >>= fun value =>
          .ok (.object (Members.insert token value (Members.erase token members))) := by
  obtain ⟨hlt, rfl, hrest⟩ := exists_getElem_of_drop h
  obtain ⟨hmore, -⟩ := exists_getElem_of_drop hrest
  rw [navigate, dif_pos hlt]
  exact if_neg (by omega)

theorem navigate_array {tokens rest : List String} {depth : Nat} {token next : String}
    (h : tokens.drop depth = token :: next :: rest) (raw : String) (change : Change)
    (items : List Node) :
    navigate raw tokens change depth (.array items) = (do
      let i ← inRange (existingIndex raw token items.length)
      let item ← itemAt items i
      let items ← setAt items i .null
      let item ← navigate raw tokens change (depth + 1) item
      let items ← setAt items i item
      .ok (.array items)) := by
  obtain ⟨hlt, rfl, hrest⟩ := exists_getElem_of_drop h
  obtain ⟨hmore, -⟩ := exists_getElem_of_drop hrest
  rw [navigate, dif_pos hlt]
  exact if_neg (by omega)

theorem navigate_scalar {tokens rest : List String} {depth : Nat} {token next : String}
    (h : tokens.drop depth = token :: next :: rest) (raw : String) (change : Change) {node : Node}
    (hscalar : node.IsScalar) :
    navigate raw tokens change depth node = .error (.fault (.notAContainer raw node.kindName)) := by
  obtain ⟨hlt, rfl, hrest⟩ := exists_getElem_of_drop h
  obtain ⟨hmore, -⟩ := exists_getElem_of_drop hrest
  have hmore : ¬depth + 1 = tokens.length := by omega
  rw [navigate, dif_pos hlt]
  simp only [if_neg hmore]
  cases node with
  | array items => exact hscalar.elim
  | object members => exact hscalar.elim
  | _ => rfl

/-- Every depth and every element on the way of a descent is in range, if every step of the change
is. By induction on the tokens that are left at a depth. -/
theorem navigate_eq {raw : String} {tokens : List String} {change : Change}
    {plain : Node.Change}
    (hchange : ∀ container token, change container token = inRange (plain container token).outcome)
    {depth : Nat} {token : String} {rest : List String} {node : Node} (hordered : node.Ordered)
    (hdrop : tokens.drop depth = token :: rest) :
    navigate raw tokens change depth node =
      inRange (Node.descend raw plain depth token rest node).outcome := by
  induction rest generalizing depth token node with
  | nil =>
    rw [navigate_last hdrop]
    exact hchange node token
  | cons next rest ih =>
    obtain ⟨-, -, hrest⟩ := exists_getElem_of_drop hdrop
    cases node with
    | object members =>
      rw [navigate_object hdrop, Node.descend_object]
      simp only [Traced.outcome_bind, Traced.outcome_report]
      cases hfound : members.lookup token with
      | none => rfl
      | some value =>
        have hpart : Node.part? token (.object members) = some value := hfound
        have hvalue := Node.ordered_of_part hordered hpart
        -- The member was taken out while it was changed.
        simp only [ih hvalue hrest, Members.insert_erase_self hordered.1]
        change _ = inRange ((Node.descend raw plain (depth + 1) next rest value >>= _).outcome)
        rw [Traced.outcome_bind, inRange_bind]
        rfl
    | array items =>
      rw [navigate_array hdrop, Node.descend_array]
      simp only [Traced.outcome_bind, Traced.outcome_report, Traced.outcome_ofExcept]
      refine existingIndex_bind raw token items ?_
      intro i
      have hitem : items[i].Ordered :=
        (Node.itemsOrdered_iff items).mp hordered _ (items.getElem_mem i.isLt)
      have hfilled (item : Node) :
          (setAt (items.set i .null) i item : Except (Halt LocationError) _) =
            .ok (items.set i item) := by
        rw [setAt_of_lt (by simp), List.set_set]
      rw [itemAt_of_lt i.isLt, setAt_of_lt i.isLt]
      change (navigate raw tokens change (depth + 1) items[i] >>= _) = _
      rw [ih hitem hrest, inRange_bind]
      refine bind_congr fun item => ?_
      rw [hfilled]
      rfl
    | _ => exact navigate_scalar hdrop raw change trivial

/-- Puts a value into a container. The place behind the last element needs no position. -/
def insertChild (raw : String) (value : Node) : Change := fun container token =>
  match container with
  | .object members => .ok (.object (Members.insert token value members))
  | .array items =>
    match Pointer.Index.ofToken token with
    | .pastEnd => .ok (.array (items ++ [value]))
    | .position i =>
      if i ≤ items.length then do
        let items ← insertAt items i value
        .ok (.array items)
      else .error (.fault (.indexOutOfBounds raw token items.length))
    | .tooLarge => .error (.fault (.indexOutOfBounds raw token maxLength))
    | .malformed => .error (.fault (.invalidIndex raw token))
  | node => .error (.fault (.notAContainer raw node.kindName))

def removeChild (raw : String) : Change := fun container token =>
  match container with
  | .object members => .ok (.object (Members.erase token members))
  | .array items => do
    let i ← inRange (existingIndex raw token items.length)
    let items ← removeAt items i
    .ok (.array items)
  | node => .error (.fault (.notAContainer raw node.kindName))

def setChild (raw : String) (value : Node) : Change := fun container token =>
  match container with
  | .object members => .ok (.object (Members.insert token value members))
  | .array items => do
    let i ← inRange (existingIndex raw token items.length)
    let items ← setAt items i value
    .ok (.array items)
  | node => .error (.fault (.notAContainer raw node.kindName))

theorem insertChild_eq (raw : String) (value container : Node) (token : String) :
    insertChild raw value container token =
      inRange (Node.insertChild raw value container token).outcome := by
  cases container with
  | array items =>
    simp only [insertChild, Node.insertChild, insertionIndex, Traced.outcome_bind,
      Traced.outcome_ofExcept, Traced.outcome_pure]
    cases Pointer.Index.ofToken token with
    | position i =>
      by_cases hi : i ≤ items.length
      · have hinsert : (insertAt items i value : Except (Halt LocationError) _) =
            .ok (items.insertIdx i value) := if_pos hi
        simp only [if_pos hi, dif_pos (Nat.lt_succ_of_le hi), hinsert]
        rfl
      · have hout : ¬i < items.length + 1 := by omega
        simp only [if_neg hi, dif_neg hout]
        rfl
    | pastEnd =>
      change _ = Except.ok (Node.array (items.insertIdx items.length value))
      rw [List.insertIdx_length_self]
    | tooLarge => rfl
    | malformed => rfl
  | _ => rfl

theorem removeChild_eq (raw : String) (container : Node) (token : String) :
    removeChild raw container token =
      inRange (Node.removeChild raw container token).outcome := by
  cases container with
  | object members =>
    rw [Node.removeChild_object]
    rfl
  | array items =>
    simp only [Node.removeChild, Traced.outcome_bind, Traced.outcome_ofExcept]
    refine existingIndex_bind raw token items ?_
    intro i
    rw [removeAt_of_lt i.isLt]
    rfl
  | _ => rfl

theorem setChild_eq (raw : String) (value container : Node) (token : String) :
    setChild raw value container token =
      inRange (Node.setChild raw value container token).outcome := by
  cases container with
  | array items =>
    simp only [Node.setChild, Traced.outcome_bind, Traced.outcome_ofExcept]
    refine existingIndex_bind raw token items ?_
    intro i
    rw [setAt_of_lt i.isLt]
    rfl
  | _ => rfl

def add (document : Node) (pointer : Pointer) (value : Node) : Except (Halt LocationError) Node :=
  if pointer.isRoot then .ok value
  else navigate pointer.raw pointer.tokens (insertChild pointer.raw value) 0 document

def remove (document : Node) (pointer : Pointer) : Except (Halt LocationError) Node :=
  if pointer.isRoot then .ok document
  else navigate pointer.raw pointer.tokens (removeChild pointer.raw) 0 document

def replace (document : Node) (pointer : Pointer) (value : Node) :
    Except (Halt LocationError) Node :=
  if pointer.isRoot then .ok value
  else navigate pointer.raw pointer.tokens (setChild pointer.raw value) 0 document

def move (document : Node) (source pointer : Pointer) : Except (Halt LocationError) Node :=
  if pointer.isInside source then .error (.fault (.insideSource pointer.raw source.raw))
  else do
    let value ← lookup document source
    if source.same pointer then .ok document
    else
      let document ← remove document source
      add document pointer value

def copy (document : Node) (source pointer : Pointer) : Except (Halt LocationError) Node := do
  let value ← lookup document source
  add document pointer value

def test (document : Node) (pointer : Pointer) (expected : Node) :
    Except (Halt ApplyError) Node := do
  let found ← (lookup document pointer).mapError (.map (.noValue pointer.raw))
  if found.same expected then .ok document
  else .error (.fault (.unequal pointer.raw expected found))

def source (operation : FlatOperation) : Except (Halt LocationError) Pointer :=
  match operation.source? with
  | some source => .ok source
  | none => .error (.noSource operation.kind)

def apply (document : Node) (operation : FlatOperation) : Except (Halt ApplyError) Node :=
  match operation.kind with
  | .add => (add document operation.path operation.value).mapError (.map .location)
  | .remove => (remove document operation.path).mapError (.map .location)
  | .replace => (replace document operation.path operation.value).mapError (.map .location)
  | .move =>
    (source operation >>= fun source => move document source operation.path).mapError
      (.map .location)
  | .copy =>
    (source operation >>= fun source => copy document source operation.path).mapError
      (.map .location)
  | .test => test document operation.path operation.value

/-- Applies operations from the left. -/
def run : List FlatOperation → Node → Except (Halt ApplyError) Node
  | [], document => .ok document
  | operation :: operations, document => do
    let document ← apply document operation
    run operations document

variable {document : Node}

theorem add_eq (hordered : document.Ordered) (pointer : Pointer) (value : Node) :
    add document pointer value = inRange (document.add pointer value).outcome := by
  unfold add Node.add Pointer.isRoot
  cases h : pointer.tokens with
  | nil => rfl
  | cons token tokens => exact navigate_eq (insertChild_eq pointer.raw value) hordered rfl

theorem remove_eq (hordered : document.Ordered) (pointer : Pointer) :
    remove document pointer = inRange (document.remove pointer).outcome := by
  unfold remove Node.remove Pointer.isRoot
  cases h : pointer.tokens with
  | nil => rfl
  | cons token tokens => exact navigate_eq (removeChild_eq pointer.raw) hordered rfl

theorem replace_eq (hordered : document.Ordered) (pointer : Pointer) (value : Node) :
    replace document pointer value = inRange (document.replace pointer value).outcome := by
  unfold replace Node.replace Pointer.isRoot
  cases h : pointer.tokens with
  | nil => rfl
  | cons token tokens => exact navigate_eq (setChild_eq pointer.raw value) hordered rfl

/-- What is removed leaves a document with names in order, to which the value is added. -/
theorem move_eq (hordered : document.Ordered) (source pointer : Pointer) :
    move document source pointer = inRange (document.move source pointer).outcome := by
  unfold move Node.move
  cases pointer.isInside source with
  | true => rfl
  | false =>
    simp only [Bool.false_eq_true, if_false, Traced.outcome_bind, Traced.outcome_ofExcept]
    rw [lookup_eq, inRange_bind]
    refine bind_congr fun value => ?_
    cases source.same pointer with
    | true => rfl
    | false =>
      simp only [Bool.false_eq_true, if_false, Traced.outcome_bind]
      rw [remove_eq hordered]
      cases hremove : (document.remove source).outcome with
      | error cause => rfl
      | ok rest => exact add_eq (Node.ordered_remove hordered hremove) pointer value

theorem copy_eq (hordered : document.Ordered) (source pointer : Pointer) :
    copy document source pointer = inRange (document.copy source pointer).outcome := by
  unfold copy Node.copy
  simp only [Traced.outcome_bind, Traced.outcome_ofExcept]
  rw [lookup_eq, inRange_bind]
  exact bind_congr fun value => add_eq hordered pointer value

theorem test_eq (document : Node) (path : Pointer) (expected : Node) :
    test document path expected =
      inRange ((Operation.test path expected).apply document).outcome := by
  simp only [test, Operation.apply, Node.test, Traced.outcome_bind, Traced.outcome_ofExcept]
  rw [lookup_eq]
  cases document.lookup path with
  | error cause => rfl
  | ok found =>
    change (if found.same expected then _ else _) =
      inRange ((if found.same expected then .ok () else _) >>= _)
    cases found.same expected <;> rfl

/-- An operation finds its source and all its elements. -/
theorem apply_flat (operation : Operation) (hordered : document.Ordered) :
    apply document operation.flat = inRange (operation.apply document).outcome := by
  cases operation with
  | add path value =>
    change (add document path value).mapError _ = inRange (Except.mapError _ _)
    rw [add_eq hordered, inRange_mapError]
  | remove path =>
    change (remove document path).mapError _ = inRange (Except.mapError _ _)
    rw [remove_eq hordered, inRange_mapError]
  | replace path value =>
    change (replace document path value).mapError _ = inRange (Except.mapError _ _)
    rw [replace_eq hordered, inRange_mapError]
  | move source path =>
    change (move document source path).mapError _ = inRange (Except.mapError _ _)
    rw [move_eq hordered, inRange_mapError]
  | copy source path =>
    change (copy document source path).mapError _ = inRange (Except.mapError _ _)
    rw [copy_eq hordered, inRange_mapError]
  | test path expected => exact test_eq document path expected

/-- A run of operations is in range in each of its steps. By induction on the operations: each
leaves names in order. -/
theorem run_flat {operations : List Operation} (hoperations : ∀ o ∈ operations, o.Obtainable)
    (hordered : document.Ordered) (index : Nat) :
    run (operations.map Operation.flat) document =
      inRange (Patch.applyFrom index operations document).outcome := by
  induction operations generalizing document index with
  | nil => rfl
  | cons operation operations ih =>
    have hvalues := (hoperations operation List.mem_cons_self).2.2
    rw [List.map_cons, run, apply_flat operation hordered, Patch.applyFrom_cons_outcome,
      inRange_bind]
    cases hnext : (operation.apply document).outcome with
    | error cause => rfl
    | ok next =>
      have hkept := Operation.ordered_apply hvalues hordered hnext
      exact ih (fun o ho => hoperations o (List.mem_cons_of_mem _ ho)) hkept (index + 1)

end JsonPatch.Unguarded
