import Mathlib.Data.List.Basic
import JsonPatch.Patch.Application
import JsonPatch.Proofs.Conversion
import JsonPatch.Proofs.Pointer.Index

namespace JsonPatch.Node

/-- The part that a token names directly inside a node, if there is one. -/
def part? (token : String) : Node → Option Node
  | object members => members.lookup token
  | array items =>
    match Pointer.Index.ofToken token with
    | .position i => items[i]?
    | _ => none
  | _ => none

/-- The node with another part where a token names one. -/
def putPart (token : String) (part : Node) : Node → Node
  | object members => object (Members.insert token part members)
  | array items =>
    match Pointer.Index.ofToken token with
    | .position i => array (items.set i part)
    | _ => array items
  | node => node

/-- What a token leads to does not depend on the pointer that faults name. -/
theorem child_eq_ok_iff (raw token : String) (node part : Node) :
    child raw token node = .ok part ↔ part? token node = some part := by
  cases node with
  | object members =>
    simp only [child, part?]
    cases members.lookup token <;> simp
  | array items =>
    simp only [child, part?]
    cases hi : elementIndex raw token items.length with
    | ok i =>
      rw [(elementIndex_eq_ok_iff raw token items.length i).mp hi]
      change Except.ok items[i] = Except.ok part ↔ items[(i : Nat)]? = some part
      simp
    | error e =>
      simp only [bind, Except.bind, reduceCtorEq, false_iff]
      cases ht : Pointer.Index.ofToken token with
      | position j =>
        intro hj
        obtain ⟨hlt, _⟩ := List.getElem?_eq_some_iff.mp hj
        have hok := (elementIndex_eq_ok_iff raw token items.length ⟨j, hlt⟩).mpr ht
        rw [hi] at hok
        cases hok
      | pastEnd => simp
      | tooLarge => simp
      | malformed => simp
  | null => simp [child, part?]
  | bool b => simp [child, part?]
  | number n => simp [child, part?]
  | string s => simp [child, part?]

theorem child_of_part {token : String} {node part : Node} (raw : String)
    (h : part? token node = some part) : child raw token node = .ok part :=
  (child_eq_ok_iff raw token node part).mpr h

/-- A node with parts is a container of one of two kinds. -/
theorem part?_cases {token : String} {node part : Node} (h : part? token node = some part) :
    (∃ members, node = object members ∧ members.lookup token = some part) ∨
    (∃ items i, node = array items ∧ Pointer.Index.ofToken token = .position i ∧
      items[i]? = some part) := by
  cases node with
  | object members => exact .inl ⟨members, rfl, h⟩
  | array items =>
    cases hi : Pointer.Index.ofToken token with
    | position i =>
      simp only [part?, hi] at h
      exact .inr ⟨items, i, rfl, rfl, h⟩
    | pastEnd => simp [part?, hi] at h
    | tooLarge => simp [part?, hi] at h
    | malformed => simp [part?, hi] at h
  | null => simp [part?] at h
  | bool b => simp [part?] at h
  | number n => simp [part?] at h
  | string s => simp [part?] at h

theorem part?_putPart {token : String} {node part : Node} (h : part? token node = some part)
    (new : Node) : part? token (putPart token new node) = some new := by
  rcases part?_cases h with ⟨members, rfl, _⟩ | ⟨items, i, rfl, hi, hp⟩
  · simp only [putPart, part?, Members.lookup_insert_self]
  · obtain ⟨hlt, _⟩ := List.getElem?_eq_some_iff.mp hp
    simp only [putPart, part?, hi, List.getElem?_set_self hlt]

theorem putPart_putPart (token : String) (first second node : Node) :
    putPart token second (putPart token first node) = putPart token second node := by
  cases node with
  | object members => simp only [putPart, Members.insert_insert]
  | array items =>
    cases hi : Pointer.Index.ofToken token with
    | position i => simp only [putPart, hi, List.set_set]
    | pastEnd => simp only [putPart, hi]
    | tooLarge => simp only [putPart, hi]
    | malformed => simp only [putPart, hi]
  | null => rfl
  | bool b => rfl
  | number n => rfl
  | string s => rfl

/-- A part put where it is already changes nothing, if the names ascend. -/
theorem putPart_self {token : String} {node part : Node} (hordered : node.Ordered)
    (h : part? token node = some part) : putPart token part node = node := by
  rcases part?_cases h with ⟨members, rfl, hp⟩ | ⟨items, i, rfl, hi, hp⟩
  · rw [putPart, Members.insert_of_lookup hordered.1 hp]
  · obtain ⟨hlt, rfl⟩ := List.getElem?_eq_some_iff.mp hp
    simp only [putPart, hi, List.set_getElem_self]

/-- Whether a node has no parts. -/
def IsScalar : Node → Prop
  | array _ | object _ => False
  | _ => True

theorem part?_scalar {node : Node} (h : node.IsScalar) (token : String) :
    part? token node = none := by
  cases node with
  | array items => exact h.elim
  | object members => exact h.elim
  | _ => rfl

theorem putPart_scalar {node : Node} (h : node.IsScalar) (token : String) (part : Node) :
    putPart token part node = node := by
  cases node with
  | array items => exact h.elim
  | object members => exact h.elim
  | _ => rfl

theorem child_scalar {node : Node} (h : node.IsScalar) (raw token : String) :
    ∃ kind, child raw token node = .error (.notAContainer raw kind) := by
  cases node with
  | array items => exact h.elim
  | object members => exact h.elim
  | _ => exact ⟨_, rfl⟩

theorem insertChild_scalar {node : Node} (h : node.IsScalar) (raw : String) (value : Node)
    (token : String) :
    ∃ kind, (insertChild raw value node token).outcome = .error (.notAContainer raw kind) := by
  cases node with
  | array items => exact h.elim
  | object members => exact h.elim
  | _ => exact ⟨_, rfl⟩

theorem removeChild_scalar {node : Node} (h : node.IsScalar) (raw token : String) :
    ∃ kind, (removeChild raw node token).outcome = .error (.notAContainer raw kind) := by
  cases node with
  | array items => exact h.elim
  | object members => exact h.elim
  | _ => exact ⟨_, rfl⟩

theorem setChild_scalar {node : Node} (h : node.IsScalar) (raw : String) (value : Node)
    (token : String) :
    ∃ kind, (setChild raw value node token).outcome = .error (.notAContainer raw kind) := by
  cases node with
  | array items => exact h.elim
  | object members => exact h.elim
  | _ => exact ⟨_, rfl⟩

theorem mem_of_lookup {members : List (String × Node)} {name : String} {value : Node}
    (h : members.lookup name = some value) : (name, value) ∈ members := by
  obtain ⟨l₁, l₂, rfl, _⟩ := List.lookup_eq_some_iff.mp h
  simp

/-- Names ascend in every part of a document in which they ascend. -/
theorem ordered_of_part {token : String} {node part : Node} (hordered : node.Ordered)
    (h : part? token node = some part) : part.Ordered := by
  rcases part?_cases h with ⟨members, rfl, hp⟩ | ⟨items, i, rfl, _, hp⟩
  · exact (membersOrdered_iff members).mp hordered.2 _ (mem_of_lookup hp)
  · exact (itemsOrdered_iff items).mp hordered _ (List.mem_of_getElem? hp)

theorem follow_append (raw : String) (first second : List String) (node : Node) :
    follow raw (first ++ second) node = follow raw first node >>= follow raw second := by
  induction first generalizing node with
  | nil => rfl
  | cons token tokens ih =>
    simp only [List.cons_append, follow]
    cases child raw token node with
    | ok part => exact ih part
    | error e => rfl

theorem follow_singleton (raw token : String) (node : Node) :
    follow raw [token] node = child raw token node := by
  simp only [follow]
  cases child raw token node <;> rfl

theorem follow_cons_eq_ok_iff (raw token : String) (tokens : List String) (node part : Node) :
    follow raw (token :: tokens) node = .ok part ↔
      ∃ next, part? token node = some next ∧ follow raw tokens next = .ok part := by
  rw [follow]
  cases hc : child raw token node with
  | ok next =>
    rw [(child_eq_ok_iff raw token node next).mp hc]
    simp [bind, Except.bind]
  | error e =>
    simp only [bind, Except.bind, reduceCtorEq, false_iff, not_exists, not_and]
    intro next hn
    rw [child_of_part raw hn] at hc
    cases hc

/-- Where tokens lead does not depend on the pointer that faults name. -/
theorem follow_raw {raw : String} {tokens : List String} {node part : Node} (other : String)
    (h : follow raw tokens node = .ok part) : follow other tokens node = .ok part := by
  induction tokens generalizing node with
  | nil => exact h
  | cons token tokens ih =>
    obtain ⟨next, hn, hf⟩ := (follow_cons_eq_ok_iff raw token tokens node part).mp h
    exact (follow_cons_eq_ok_iff other token tokens node part).mpr ⟨next, hn, ih hf⟩

theorem ordered_of_follow {raw : String} {tokens : List String} {node part : Node}
    (hordered : node.Ordered) (h : follow raw tokens node = .ok part) : part.Ordered := by
  induction tokens generalizing node with
  | nil =>
    cases h
    exact hordered
  | cons token tokens ih =>
    obtain ⟨next, hn, hf⟩ := (follow_cons_eq_ok_iff raw token tokens node part).mp h
    exact ih (ordered_of_part hordered hn) hf

/-- The document with another node in the place that the tokens lead to. -/
def graft (new : Node) : List String → Node → Node
  | [], _ => new
  | token :: tokens, node =>
    match part? token node with
    | some part => putPart token (graft new tokens part) node
    | none => node

theorem graft_cons_of_part {token : String} {node part : Node} (new : Node)
    (tokens : List String) (h : part? token node = some part) :
    graft new (token :: tokens) node = putPart token (graft new tokens part) node := by
  rw [graft, h]

/-- The new node stands where the old one stood. -/
theorem follow_graft {raw : String} {tokens : List String} {node part : Node} (other : String)
    (new : Node) (h : follow raw tokens node = .ok part) :
    follow other tokens (graft new tokens node) = .ok new := by
  induction tokens generalizing node with
  | nil => rfl
  | cons token tokens ih =>
    obtain ⟨next, hn, hf⟩ := (follow_cons_eq_ok_iff raw token tokens node part).mp h
    rw [graft_cons_of_part new tokens hn]
    exact (follow_cons_eq_ok_iff other token tokens _ new).mpr
      ⟨_, part?_putPart hn _, ih hf⟩

/-- Of two replacements in one place the later one counts. -/
theorem graft_graft (tokens : List String) (first second node : Node) :
    graft second tokens (graft first tokens node) = graft second tokens node := by
  induction tokens generalizing node with
  | nil => rfl
  | cons token tokens ih =>
    cases hn : part? token node with
    | none => simp only [graft, hn]
    | some next =>
      rw [graft_cons_of_part first tokens hn, graft_cons_of_part second tokens hn,
        graft_cons_of_part second tokens (part?_putPart hn _), ih, putPart_putPart]

/-- A replacement further down is one in the part on the way. -/
theorem graft_append {raw : String} {first : List String} {node part : Node}
    (h : follow raw first node = .ok part) (new : Node) (second : List String) :
    graft new (first ++ second) node = graft (graft new second part) first node := by
  induction first generalizing node with
  | nil =>
    cases h
    rfl
  | cons token tokens ih =>
    obtain ⟨next, hn, hf⟩ := (follow_cons_eq_ok_iff raw token tokens node part).mp h
    rw [List.cons_append, graft_cons_of_part _ _ hn, graft_cons_of_part _ _ hn, ih hf]

/-- A node replaced by itself leaves the document as it is. -/
theorem graft_self {raw : String} {tokens : List String} {node part : Node}
    (hordered : node.Ordered) (h : follow raw tokens node = .ok part) :
    graft part tokens node = node := by
  induction tokens generalizing node with
  | nil =>
    cases h
    rfl
  | cons token tokens ih =>
    obtain ⟨next, hn, hf⟩ := (follow_cons_eq_ok_iff raw token tokens node part).mp h
    rw [graft_cons_of_part part tokens hn, ih (ordered_of_part hordered hn) hf,
      putPart_self hordered hn]

theorem descend_object (raw : String) (change : Change) (depth : Nat) (token next : String)
    (tokens : List String) (members : List (String × Node)) :
    descend raw change depth token (next :: tokens) (object members) = (do
      Traced.report (.descending raw depth token)
      match members.lookup token with
      | none => Traced.fail (.missingMember raw token)
      | some value =>
        let value ← descend raw change (depth + 1) next tokens value
        return object (Members.insert token value members)) := rfl

theorem descend_array (raw : String) (change : Change) (depth : Nat) (token next : String)
    (tokens : List String) (items : List Node) :
    descend raw change depth token (next :: tokens) (array items) = (do
      Traced.report (.descending raw depth token)
      let i ← Traced.ofExcept (elementIndex raw token items.length)
      let item ← descend raw change (depth + 1) next tokens (items.get i)
      return array (items.set i item)) := rfl

/-- One step of the descent goes to the child, and puts the changed child back. -/
theorem descend_cons (raw : String) (change : Change) (depth : Nat) (token next : String)
    (tokens : List String) (node : Node) :
    descend raw change depth token (next :: tokens) node = (do
      Traced.report (.descending raw depth token)
      let part ← Traced.ofExcept (child raw token node)
      let changed ← descend raw change (depth + 1) next tokens part
      return putPart token changed node) := by
  cases node with
  | object members =>
    simp only [descend_object, child, putPart]
    cases members.lookup token <;> rfl
  | array items =>
    simp only [descend_array, child]
    cases hi : elementIndex raw token items.length with
    | error e => rfl
    | ok i =>
      have ht := (elementIndex_eq_ok_iff raw token items.length i).mp hi
      simp only [putPart, ht]
      rfl
  | null => rfl
  | bool b => rfl
  | number n => rfl
  | string s => rfl

/-- The way down along tokens, each step reported before it is taken. -/
def walk (raw : String) (depth : Nat) : List String → Node → Traced LocationError Node
  | [], node => return node
  | token :: tokens, node => do
    Traced.report (.descending raw depth token)
    let part ← Traced.ofExcept (child raw token node)
    walk raw (depth + 1) tokens part

theorem walk_outcome (raw : String) (depth : Nat) (tokens : List String) (node : Node) :
    (walk raw depth tokens node).outcome = follow raw tokens node := by
  induction tokens generalizing depth node with
  | nil => rfl
  | cons token tokens ih =>
    simp only [walk, follow, Traced.outcome_bind, Traced.outcome_report, Traced.outcome_ofExcept,
      ih]
    rfl

/-- A descent walks to the container, changes it, and puts it back. -/
theorem descend_eq_walk (raw : String) (change : Change) (depth : Nat) (token : String)
    (tokens : List String) (node : Node) (place : List String) (last : String)
    (h : token :: tokens = place ++ [last]) :
    descend raw change depth token tokens node = (do
      let container ← walk raw depth place node
      let changed ← change container last
      return graft changed place node) := by
  induction tokens generalizing depth token node place with
  | nil =>
    obtain ⟨rfl, rfl⟩ : place = [] ∧ token = last := by
      cases place with
      | nil => exact ⟨rfl, (List.cons.inj h).1⟩
      | cons p place => simp at h
    change change node token = _
    simp only [walk, graft, pure_bind, bind_pure]
  | cons next tokens ih =>
    cases place with
    | nil => simp at h
    | cons p place =>
      obtain ⟨rfl, ht⟩ := List.cons.inj h
      rw [descend_cons]
      simp only [walk, bind_assoc]
      -- The part that the token leads to is known on both sides only after the report.
      congr 1
      funext _
      cases hc : child raw token node with
      | error e => simp only [Traced.ofExcept_error, Traced.fail_bind]
      | ok part =>
        have hpart := (child_eq_ok_iff raw token node part).mp hc
        simp only [Traced.ofExcept_ok, pure_bind, ih _ _ _ place ht, bind_assoc,
          graft_cons_of_part _ place hpart]

/-- The container at a place changed, and all around it kept. -/
def edit (raw : String) (change : Change) (place : List String) (token : String)
    (document : Node) : Except LocationError Node := do
  let container ← follow raw place document
  let changed ← (change container token).outcome
  .ok (graft changed place document)

/-- An edit with its reports: those of the way to the container, and those of the change. -/
def alter (raw : String) (change : Change) (place : List String) (token : String)
    (document : Node) : Traced LocationError Node := do
  let container ← walk raw 0 place document
  let changed ← change container token
  return graft changed place document

theorem alter_outcome (raw : String) (change : Change) (place : List String) (token : String)
    (document : Node) :
    (alter raw change place token document).outcome = edit raw change place token document := by
  simp only [alter, Traced.outcome_bind, walk_outcome]
  rfl

theorem exists_concat {tokens : List String} (h : tokens ≠ []) :
    ∃ place last, tokens = place ++ [last] :=
  ⟨tokens.dropLast, tokens.getLast h, (List.dropLast_append_getLast h).symm⟩

/-- A pointer is the root, or leads to one token inside the place of its others. -/
theorem tokens_cases (p : Pointer) :
    p.tokens = [] ∨ ∃ place last, p.tokens = place ++ [last] := by
  by_cases hroot : p.tokens = []
  · exact .inl hroot
  · exact .inr (exists_concat hroot)

theorem add_outcome_root {p : Pointer} (h : p.tokens = []) (document value : Node) :
    (document.add p value).outcome = .ok value := by
  simp only [add, h, Traced.outcome_pure]

theorem remove_outcome_root {p : Pointer} (h : p.tokens = []) (document : Node) :
    (document.remove p).outcome = .ok document := by
  simp only [remove, h]
  rfl

theorem replace_outcome_root {p : Pointer} (h : p.tokens = []) (document value : Node) :
    (document.replace p value).outcome = .ok value := by
  simp only [replace, h, Traced.outcome_pure]

section Operations

variable {p : Pointer} {place : List String} {last : String}

/-- The recursion that takes containers apart and builds them anew is one edit. -/
theorem add_eq_alter (h : p.tokens = place ++ [last]) (document value : Node) :
    document.add p value = alter p.raw (insertChild p.raw value) place last document := by
  cases ht : p.tokens with
  | nil => simp [ht] at h
  | cons token tokens =>
    simp only [add, ht]
    exact descend_eq_walk _ _ 0 token tokens document place last (ht.symm.trans h)

theorem remove_eq_alter (h : p.tokens = place ++ [last]) (document : Node) :
    document.remove p = alter p.raw (removeChild p.raw) place last document := by
  cases ht : p.tokens with
  | nil => simp [ht] at h
  | cons token tokens =>
    simp only [remove, ht]
    exact descend_eq_walk _ _ 0 token tokens document place last (ht.symm.trans h)

theorem replace_eq_alter (h : p.tokens = place ++ [last]) (document value : Node) :
    document.replace p value = alter p.raw (setChild p.raw value) place last document := by
  cases ht : p.tokens with
  | nil => simp [ht] at h
  | cons token tokens =>
    simp only [replace, ht]
    exact descend_eq_walk _ _ 0 token tokens document place last (ht.symm.trans h)

theorem add_outcome (h : p.tokens = place ++ [last]) (document value : Node) :
    (document.add p value).outcome = edit p.raw (insertChild p.raw value) place last document := by
  rw [add_eq_alter h, alter_outcome]

theorem remove_outcome (h : p.tokens = place ++ [last]) (document : Node) :
    (document.remove p).outcome = edit p.raw (removeChild p.raw) place last document := by
  rw [remove_eq_alter h, alter_outcome]

theorem replace_outcome (h : p.tokens = place ++ [last]) (document value : Node) :
    (document.replace p value).outcome = edit p.raw (setChild p.raw value) place last document := by
  rw [replace_eq_alter h, alter_outcome]

end Operations

theorem lookup_root {p : Pointer} (h : p.tokens = []) (document : Node) :
    document.lookup p = .ok document := by
  rw [lookup, h, follow]

theorem lookup_eq_ok_iff {p : Pointer} {place : List String} {last : String}
    (h : p.tokens = place ++ [last]) (document value : Node) :
    document.lookup p = .ok value ↔
      ∃ container, follow p.raw place document = .ok container ∧
        part? last container = some value := by
  rw [lookup, h, follow_append]
  cases hf : follow p.raw place document with
  | error e => simp [bind, Except.bind]
  | ok container =>
    change follow p.raw [last] container = .ok value ↔ _
    rw [follow_singleton, child_eq_ok_iff]
    simp

end JsonPatch.Node
