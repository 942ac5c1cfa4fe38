import JsonPatch.Proofs.Changes

namespace JsonPatch

namespace Traced

variable {ε α β : Type}

/-- The second computation reports only if the first one ends with a value. -/
theorem events_bind (x : Traced ε α) (f : α → Traced ε β) :
    (x >>= f).events = x.events ++
      match x.outcome with
      | .ok value => (f value).events
      | .error _ => [] := by
  cases h : x.outcome with
  | ok value => rw [bind_of_ok h]
  | error e => rw [bind_of_error h, List.append_nil]

/-- What is computed from a value without a report adds none. -/
theorem events_bind_pure (x : Traced ε α) (f : α → β) :
    (x >>= fun value => pure (f value)).events = x.events := by
  rw [events_bind]
  cases x.outcome <;> exact List.append_nil x.events

end Traced

namespace Node

variable {token : String}

theorem walk_cons_events (raw : String) (depth : Nat) (token : String) (tokens : List String)
    (node : Node) :
    (walk raw depth (token :: tokens) node).events = .descending raw depth token ::
      match part? token node with
      | some part => (walk raw (depth + 1) tokens part).events
      | none => [] := by
  cases hpart : part? token node with
  | some part =>
    rw [walk, child_of_part raw hpart]
    rfl
  | none =>
    rw [walk]
    cases hchild : child raw token node with
    | ok part =>
      rw [(child_eq_ok_iff raw token node part).mp hchild] at hpart
      cases hpart
    | error e => rfl

/-- The report of a number is that of the token of this number. It is there exactly if the tokens
before lead somewhere. -/
theorem walk_events_getElem? (raw : String) (depth : Nat) (tokens : List String) (node : Node)
    (i : Nat) (event : Event) :
    (walk raw depth tokens node).events[i]? = some event ↔
      ∃ token, tokens[i]? = some token ∧ event = .descending raw (depth + i) token ∧
        ∃ part, follow raw (tokens.take i) node = .ok part := by
  induction tokens generalizing depth node i with
  | nil =>
    have hnone : (walk raw depth [] node).events = [] := rfl
    simp [hnone]
  | cons token tokens ih =>
    rw [walk_cons_events]
    cases i with
    | zero =>
      have hhere : ∃ part, follow raw [] node = .ok part := ⟨node, rfl⟩
      simp only [List.getElem?_cons_zero, List.take_zero, Option.some.injEq, exists_eq_left',
        Nat.add_zero, hhere, and_true]
      exact eq_comm
    | succ i =>
      have hnumber : depth + 1 + i = depth + (i + 1) := by omega
      simp only [List.getElem?_cons_succ, List.take_succ_cons, follow_cons_eq_ok_iff]
      cases hpart : part? token node with
      | some next => simp [ih, hnumber]
      | none => simp

theorem insertChild_events (raw : String) (value node : Node) (token : String) :
    (insertChild raw value node token).events = [] := by
  cases node with
  | array items => exact Traced.events_bind_pure (Traced.ofExcept _) _
  | _ => rfl

theorem setChild_events (raw : String) (value node : Node) (token : String) :
    (setChild raw value node token).events = [] := by
  cases node with
  | array items => exact Traced.events_bind_pure (Traced.ofExcept _) _
  | _ => rfl

/-- Whether a node is an object without a member of a name. -/
def LacksMember (name : String) (node : Node) : Prop :=
  ∃ members, node = object members ∧ members.lookup name = none

theorem removeChild_events_of_lacks {node : Node} (h : node.LacksMember token) (raw : String) :
    (removeChild raw node token).events = [.memberMissing raw] := by
  obtain ⟨members, rfl, hnone⟩ := h
  simp only [removeChild, hnone]
  rfl

theorem removeChild_events_of_not_lacks {node : Node} (h : ¬node.LacksMember token)
    (raw : String) : (removeChild raw node token).events = [] := by
  cases node with
  | object members =>
    cases hmember : members.lookup token with
    | none => exact absurd ⟨members, rfl, hmember⟩ h
    | some value =>
      simp only [removeChild, hmember]
      rfl
  | array items => exact Traced.events_bind_pure (Traced.ofExcept _) _
  | _ => rfl

/-- An edit reports its way, and then what the change reports if there is a container for it. -/
theorem alter_events (raw : String) (change : Change) (place : List String) (token : String)
    (document : Node) :
    (alter raw change place token document).events =
      (walk raw 0 place document).events ++
        match follow raw place document with
        | .ok container => (change container token).events
        | .error _ => [] := by
  rw [alter, Traced.events_bind, walk_outcome]
  cases follow raw place document with
  | ok container => simp only [Traced.events_bind_pure]
  | error e => rfl

/-- A change that reports nothing leaves the reports of the way. -/
theorem alter_events_of_silent {change : Change}
    (hsilent : ∀ container token, (change container token).events = []) (raw : String)
    (place : List String) (token : String) (document : Node) :
    (alter raw change place token document).events = (walk raw 0 place document).events := by
  rw [alter_events]
  cases follow raw place document with
  | ok container => simp only [hsilent, List.append_nil]
  | error e => exact List.append_nil _

section Operations

variable {p : Pointer} {place : List String} {last : String}

theorem add_events (hplace : p.tokens = place ++ [last]) (document value : Node) :
    (document.add p value).events = (walk p.raw 0 place document).events := by
  rw [add_eq_alter hplace, alter_events_of_silent (insertChild_events p.raw value)]

theorem replace_events (hplace : p.tokens = place ++ [last]) (document value : Node) :
    (document.replace p value).events = (walk p.raw 0 place document).events := by
  rw [replace_eq_alter hplace, alter_events_of_silent (setChild_events p.raw value)]

/-- Whether reports tell how far the tokens of a pointer lead in a document. -/
structure TellsWay (document : Node) (p : Pointer) (reports : List Event) : Prop where
  /-- The reports are numbered from zero, and each names the token of its number. -/
  in_order : ∀ (depth : Nat) (event : Event), reports[depth]? = some event →
    ∃ token, p.tokens[depth]? = some token ∧ event = .descending p.raw depth token
  /-- A token is reported if it is not the last one and those before it lead somewhere. -/
  reached : ∀ depth, (∃ pointer token, Event.descending pointer depth token ∈ reports) ↔
    depth + 1 < p.tokens.length ∧
      ∃ part, document.lookup (.spell (p.tokens.take depth)) = .ok part

theorem tellsWay_walk (hplace : p.tokens = place ++ [last]) (document : Node) :
    TellsWay document p (walk p.raw 0 place document).events := by
  have hlength : p.tokens.length = place.length + 1 := by
    rw [hplace, List.length_append, List.length_singleton]
  have htake {depth : Nat} (h : depth < place.length) :
      p.tokens.take depth = place.take depth := by
    rw [hplace, List.take_append_of_le_length (Nat.le_of_lt h)]
  constructor
  · intro depth event hevent
    obtain ⟨token, htoken, rfl, -⟩ := (walk_events_getElem? _ _ _ _ depth event).mp hevent
    have hlt := (List.getElem?_eq_some_iff.mp htoken).1
    refine ⟨token, ?_, by rw [Nat.zero_add]⟩
    rw [hplace, List.getElem?_append_left hlt, htoken]
  · intro depth
    constructor
    · rintro ⟨pointer, token, hmem⟩
      obtain ⟨i, hi⟩ := List.mem_iff_getElem?.mp hmem
      obtain ⟨token', htoken, hevent, part, hpart⟩ := (walk_events_getElem? _ _ _ _ i _).mp hi
      obtain ⟨-, hdepth, -⟩ := Event.descending.inj hevent
      obtain rfl : depth = i := by omega
      have hlt := (List.getElem?_eq_some_iff.mp htoken).1
      refine ⟨by omega, part, ?_⟩
      rw [htake hlt]
      exact follow_raw _ hpart
    · rintro ⟨hdepth, part, hpart⟩
      have hlt : depth < place.length := by omega
      rw [htake hlt] at hpart
      have hreport := (walk_events_getElem? p.raw 0 place document depth _).mpr
        ⟨place[depth], List.getElem?_eq_getElem hlt, rfl, part, follow_raw p.raw hpart⟩
      rw [Nat.zero_add] at hreport
      exact ⟨p.raw, place[depth], List.mem_of_getElem? hreport⟩

/-- Whether a pointer names a member that the object of its parent does not have. -/
def NamesMissingMember (document : Node) (p : Pointer) : Prop :=
  ∃ parent last members, p.parent? = some parent ∧ p.last? = some last ∧
    document.lookup parent = .ok (object members) ∧ members.lookup last = none

theorem namesMissingMember_iff (hplace : p.tokens = place ++ [last]) (document : Node) :
    NamesMissingMember document p ↔
      ∃ container, follow p.raw place document = .ok container ∧ container.LacksMember last := by
  unfold NamesMissingMember
  rw [parent?_of_concat hplace, last?_of_concat hplace]
  constructor
  · rintro ⟨parent, last', members, hparent, hlast, hfound, hnone⟩
    cases hparent
    cases hlast
    exact ⟨object members, follow_raw p.raw hfound, members, rfl, hnone⟩
  · rintro ⟨container, hcontainer, members, rfl, hnone⟩
    exact ⟨_, _, members, rfl, rfl, follow_raw _ hcontainer, hnone⟩

/-- A removal reports its way, and behind it a member that is missing. -/
theorem remove_events_cases (hplace : p.tokens = place ++ [last]) (document : Node) :
    (NamesMissingMember document p ∧ (document.remove p).events =
      (walk p.raw 0 place document).events ++ [.memberMissing p.raw]) ∨
    (¬NamesMissingMember document p ∧ (document.remove p).events =
      (walk p.raw 0 place document).events) := by
  rw [namesMissingMember_iff hplace, remove_eq_alter hplace, alter_events]
  cases hcontainer : follow p.raw place document with
  | error e => exact .inr ⟨by simp, List.append_nil _⟩
  | ok container =>
    by_cases hlacks : container.LacksMember last
    · exact .inl ⟨⟨container, rfl, hlacks⟩,
        congrArg _ (removeChild_events_of_lacks hlacks p.raw)⟩
    · refine .inr ⟨?_, ?_⟩
      · rintro ⟨_, hfound, hother⟩
        cases hfound
        exact hlacks hother
      · simp only [removeChild_events_of_not_lacks hlacks, List.append_nil]

/-- Adding, removing and replacing report one way: each token but the last that the tokens before it
lead to. A removal may report behind it that a member is missing. -/
theorem reports_tell_way (document : Node) (p : Pointer) (hp : p.isRoot = false) :
    ∃ way, TellsWay document p way ∧
      (∀ value, (document.add p value).events = way) ∧
      (∀ value, (document.replace p value).events = way) ∧
      (NamesMissingMember document p ∧
          (document.remove p).events = way ++ [.memberMissing p.raw] ∨
        ¬NamesMissingMember document p ∧ (document.remove p).events = way) := by
  rcases tokens_cases p with hroot | ⟨place, last, hplace⟩
  · simp [Pointer.isRoot, hroot] at hp
  · exact ⟨_, tellsWay_walk hplace document, add_events hplace document,
      replace_events hplace document, remove_events_cases hplace document⟩

end Operations

/-- A member that is missing behind two steps, and a way of which the second step leads nowhere. -/
theorem reports_tell_way_to_missing_member :
    let document := object [("a", array [object [("b", null)]])]
    let absent : Pointer := ⟨"/a/0/c", ["a", "0", "c"]⟩
    let beyond : Pointer := ⟨"/a/1/c/d", ["a", "1", "c", "d"]⟩
    absent.isRoot = false ∧ beyond.isRoot = false ∧
      TellsWay document absent [.descending "/a/0/c" 0 "a", .descending "/a/0/c" 1 "0"] ∧
      NamesMissingMember document absent ∧
      (document.remove absent).events = [.descending "/a/0/c" 0 "a", .descending "/a/0/c" 1 "0",
        .memberMissing "/a/0/c"] ∧
      TellsWay document beyond [.descending "/a/1/c/d" 0 "a", .descending "/a/1/c/d" 1 "1"] ∧
      ¬NamesMissingMember document beyond := by
  intro document absent beyond
  have hmissing : NamesMissingMember document absent := ⟨_, _, _, rfl, rfl, rfl, rfl⟩
  obtain ⟨way, htells, hadd, -, ⟨-, hremove⟩ | ⟨hnone, -⟩⟩ := reports_tell_way document absent rfl
  · obtain ⟨way', htells', hadd', -, ⟨hother, -⟩ | ⟨hother, -⟩⟩ :=
      reports_tell_way document beyond rfl
    · obtain ⟨_, _, _, hparent, -, hfound, -⟩ := hother
      cases hparent
      cases hfound
    · have hway : way = [.descending "/a/0/c" 0 "a", .descending "/a/0/c" 1 "0"] :=
        (hadd null).symm
      have hway' : way' = [.descending "/a/1/c/d" 0 "a", .descending "/a/1/c/d" 1 "1"] :=
        (hadd' null).symm
      rw [hway] at htells hremove
      rw [hway'] at htells'
      exact ⟨rfl, rfl, htells, hmissing, hremove, htells', hother⟩
  · exact absurd hmissing hnone

end Node

end JsonPatch
