import JsonPatch.Proofs.Ordered
import JsonPatch.Proofs.Walk

namespace JsonPatch

/-- The tokens that two lists begin with alike. -/
def sharedTokens : List String → List String → List String
  | s :: ss, t :: ts => if s = t then s :: sharedTokens ss ts else []
  | _, _ => []

/-- Behind the shared tokens come two that differ, unless one list begins the other. -/
theorem exists_fork {p q : List String} (hpq : ¬p <+: q) (hqp : ¬q <+: p) :
    ∃ s t ps qs, s ≠ t ∧ p = sharedTokens p q ++ s :: ps ∧ q = sharedTokens p q ++ t :: qs := by
  induction p generalizing q with
  | nil => exact absurd List.nil_prefix hpq
  | cons s ps ih =>
    cases q with
    | nil => exact absurd List.nil_prefix hqp
    | cons t qs =>
      by_cases hst : s = t
      · subst hst
        have hps : ¬ps <+: qs := fun h => hpq (List.cons_prefix_cons.mpr ⟨rfl, h⟩)
        have hqs : ¬qs <+: ps := fun h => hqp (List.cons_prefix_cons.mpr ⟨rfl, h⟩)
        obtain ⟨u, v, us, vs, huv, hp, hq⟩ := ih hps hqs
        have hshared : sharedTokens (s :: ps) (s :: qs) = s :: sharedTokens ps qs := if_pos rfl
        rw [hshared]
        exact ⟨u, v, us, vs, huv, congrArg (List.cons s) hp, congrArg (List.cons s) hq⟩
      · have hshared : sharedTokens (s :: ps) (t :: qs) = [] := if_neg hst
        rw [hshared]
        exact ⟨s, t, ps, qs, hst, rfl, rfl⟩

namespace Node

/-- The elements with another one where a token names one, if another one is given. -/
def assignItem (token : String) (item : Option Node) (items : List Node) : List Node :=
  match item, Pointer.Index.ofToken token with
  | some item, .position i => items.set i item
  | _, _ => items

/-- The node with a part at a token, or, where none is given and the node is an object, without
one. -/
def withPart (token : String) (part : Option Node) : Node → Node
  | object members => object (Members.assign token part members)
  | array items => array (assignItem token part items)
  | node => node

theorem withPart_some (token : String) (part node : Node) :
    withPart token (some part) node = putPart token part node := by
  cases node with
  | array items =>
    simp only [withPart, assignItem, putPart]
    cases Pointer.Index.ofToken token <;> rfl
  | _ => rfl

theorem part?_withPart_of_ne {token other : String} (h : other ≠ token) (part : Option Node)
    (node : Node) : part? other (withPart token part node) = part? other node := by
  cases part with
  | some part => rw [withPart_some, part?_putPart_of_ne h]
  | none =>
    cases node with
    | object members => exact Members.lookup_erase_of_ne h members
    | _ => rfl

theorem assignItem_comm {token other : String} (hne : token ≠ other)
    (first second : Option Node) (items : List Node) :
    assignItem token first (assignItem other second items) =
      assignItem other second (assignItem token first items) := by
  cases first with
  | none => rfl
  | some x =>
    cases second with
    | none => rfl
    | some y =>
      unfold assignItem
      cases hi : Pointer.Index.ofToken token with
      | position i =>
        cases hj : Pointer.Index.ofToken other with
        | position j =>
          have hij : i ≠ j := by
            intro hij
            subst hij
            exact hne (Pointer.Index.token_inj hi hj)
          exact List.set_comm y x (Ne.symm hij)
        | _ => rfl
      | _ => rfl

/-- What is put at two tokens does not depend on the order. -/
theorem withPart_comm {token other : String} (hne : token ≠ other) (first second : Option Node)
    {node : Node} (hordered : node.Ordered) :
    withPart token first (withPart other second node) =
      withPart other second (withPart token first node) := by
  cases node with
  | object members => simp only [withPart, Members.assign_comm hne first second hordered.1]
  | array items => simp only [withPart, assignItem_comm hne]
  | _ => rfl

/-- The part that is there already, put there or left out, changes nothing. -/
theorem withPart_part? (token : String) {node : Node} (hordered : node.Ordered) :
    withPart token (part? token node) node = node := by
  cases hpart : part? token node with
  | some part => rw [withPart_some, putPart_self hordered hpart]
  | none =>
    cases node with
    | object members =>
      change object (Members.assign token none members) = object members
      have hlookup : members.lookup token = none := hpart
      rw [← hlookup, Members.assign_lookup token hordered.1]
    | _ => rfl

end Node

namespace Operation

open Node

/-- What an operation at one place can make of the container that its last token belongs to. -/
def Leaves (operation : Operation) (container : Node) (token : String) (changed : Node) : Prop :=
  match operation with
  | add path value => (insertChild path.raw value container token).outcome = .ok changed
  | remove path => (removeChild path.raw container token).outcome = .ok changed
  | replace path value => (setChild path.raw value container token).outcome = .ok changed
  | test _ expected =>
    changed = container ∧ ∃ found, part? token container = some found ∧ found.same expected = true
  | move .. | copy .. => False

/-- What an operation at one place, its path read as the given tokens, can make of a document. -/
def Yields (operation : Operation) (tokens : List String) (document result : Node) : Prop :=
  ∃ place last container changed, tokens = place ++ [last] ∧
    follow operation.path.raw place document = .ok container ∧
    operation.Leaves container last changed ∧ result = graft changed place document

theorem yields_concat_iff (operation : Operation) (place : List String) (last : String)
    (document result : Node) :
    operation.Yields (place ++ [last]) document result ↔
      ∃ container changed, follow operation.path.raw place document = .ok container ∧
        operation.Leaves container last changed ∧ result = graft changed place document := by
  constructor
  · intro h
    obtain ⟨place', last', container, changed, htokens, hrest⟩ := h
    obtain ⟨rfl, hlast⟩ := List.append_inj' htokens rfl
    cases hlast
    exact ⟨container, changed, hrest⟩
  · intro h
    obtain ⟨container, changed, hrest⟩ := h
    exact ⟨place, last, container, changed, rfl, hrest⟩

theorem yields_singleton_iff (operation : Operation) (token : String) (document result : Node) :
    operation.Yields [token] document result ↔ operation.Leaves document token result := by
  rw [← List.nil_append [token], yields_concat_iff]
  simp only [follow, graft, Except.ok.injEq]
  constructor
  · intro h
    obtain ⟨_, _, rfl, hleaves, rfl⟩ := h
    exact hleaves
  · intro h
    exact ⟨document, result, rfl, h, rfl⟩

/-- Adding, removing, replacing and testing all find the container, and leave it changed or not. -/
theorem apply_eq_ok_iff_yields {operation : Operation} (hlocal : operation.source? = none)
    {document : Node} (hordered : document.Ordered) (hpath : operation.path.tokens ≠ [])
    (result : Node) :
    (operation.apply document).outcome = .ok result ↔
      operation.Yields operation.path.tokens document result := by
  rcases tokens_cases operation.path with hroot | ⟨place, last, hplace⟩
  · exact absurd hroot hpath
  rw [hplace, yields_concat_iff]
  cases operation with
  | add path value =>
    exact mapError_eq_ok.trans (add_eq_ok_iff hplace document value result)
  | remove path =>
    exact mapError_eq_ok.trans (remove_eq_ok_iff hplace document result)
  | replace path value =>
    exact mapError_eq_ok.trans (replace_eq_ok_iff hplace document value result)
  | move source path => cases hlocal
  | copy source path => cases hlocal
  | test path expected =>
    rw [apply_test_eq_ok_iff]
    constructor
    · intro h
      obtain ⟨rfl, found, hfound, hsame⟩ := h
      obtain ⟨container, hcontainer, hpart⟩ := (lookup_eq_ok_iff hplace result found).mp hfound
      exact ⟨container, container, hcontainer, ⟨rfl, found, hpart, hsame⟩,
        (graft_self hordered hcontainer).symm⟩
    · intro h
      obtain ⟨container, changed, hcontainer, ⟨rfl, found, hpart, hsame⟩, rfl⟩ := h
      exact ⟨graft_self hordered hcontainer, found,
        (lookup_eq_ok_iff hplace document found).mpr ⟨changed, hcontainer, hpart⟩, hsame⟩

/-- Below tokens that lead to a part, an operation works on the part alone. -/
theorem yields_append_iff (operation : Operation) {tokens : List String} (hne : tokens ≠ [])
    (shared : List String) (document result : Node) :
    operation.Yields (shared ++ tokens) document result ↔
      ∃ part changed, follow operation.path.raw shared document = .ok part ∧
        operation.Yields tokens part changed ∧ result = graft changed shared document := by
  obtain ⟨place, last, rfl⟩ := exists_concat hne
  rw [← List.append_assoc, yields_concat_iff]
  constructor
  · intro h
    obtain ⟨container, changed, hcontainer, hleaves, rfl⟩ := h
    rw [follow_append] at hcontainer
    obtain ⟨part, hpart, hinside⟩ := bind_eq_ok.mp hcontainer
    have hyields : operation.Yields (place ++ [last]) part (graft changed place part) :=
      ⟨place, last, container, changed, rfl, hinside, hleaves, rfl⟩
    exact ⟨part, _, hpart, hyields, graft_append hpart changed place⟩
  · intro h
    obtain ⟨part, _, hpart, hyields, rfl⟩ := h
    obtain ⟨container, changed, hinside, hleaves, rfl⟩ :=
      (yields_concat_iff operation place last part _).mp hyields
    refine ⟨container, changed, ?_, hleaves, (graft_append hpart changed place).symm⟩
    rw [follow_append]
    exact bind_eq_ok.mpr ⟨part, hpart, hinside⟩

theorem ordered_leaves {operation : Operation} {container changed : Node} {token : String}
    (hvalue : ∀ value ∈ operation.value?, value.Ordered) (hordered : container.Ordered)
    (h : operation.Leaves container token changed) : changed.Ordered := by
  cases operation with
  | add path value =>
    exact insertChild_keepsOrder path.raw (hvalue value rfl) container token changed hordered h
  | remove path => exact removeChild_keepsOrder path.raw container token changed hordered h
  | replace path value =>
    exact setChild_keepsOrder path.raw (hvalue value rfl) container token changed hordered h
  | move source path => exact h.elim
  | copy source path => exact h.elim
  | test path expected =>
    obtain ⟨rfl, -⟩ := h
    exact hordered

theorem ordered_yields {operation : Operation} {tokens : List String} {document result : Node}
    (hvalue : ∀ value ∈ operation.value?, value.Ordered) (hordered : document.Ordered)
    (h : operation.Yields tokens document result) : result.Ordered := by
  obtain ⟨place, last, container, changed, -, hcontainer, hleaves, rfl⟩ := h
  have hchanged := ordered_leaves hvalue (ordered_of_follow hordered hcontainer) hleaves
  exact ordered_graft hchanged place hordered

/-- What an operation can make of the part at a token, given the tokens that follow. `none` stands
for no part. -/
def Makes (operation : Operation) (tokens : List String) (before after : Option Node) : Prop :=
  match tokens with
  | [] =>
    match operation with
    | add _ value | replace _ value => after = some value
    | remove _ => after = none
    | test _ expected =>
      after = before ∧ ∃ found, before = some found ∧ found.same expected = true
    | move .. | copy .. => False
  | _ :: _ =>
    ∃ part changed, before = some part ∧ operation.Yields tokens part changed ∧
      after = some changed

theorem leaves_object_iff (operation : Operation) {members : List (String × Node)}
    (hordered : (object members).Ordered) (token : String) (changed : Node) :
    operation.Leaves (object members) token changed ↔
      ∃ after, operation.Makes [] (members.lookup token) after ∧
        changed = withPart token after (object members) := by
  cases operation with
  | add path value => simp [Leaves, Makes, insertChild, withPart, Members.assign, eq_comm]
  | remove path => simp [Leaves, Makes, removeChild_object, withPart, Members.assign, eq_comm]
  | replace path value => simp [Leaves, Makes, setChild, withPart, Members.assign, eq_comm]
  | move source path => simp [Leaves, Makes]
  | copy source path => simp [Leaves, Makes]
  | test path expected =>
    have hself := withPart_part? token hordered
    constructor
    · intro h
      obtain ⟨rfl, hfound⟩ := h
      exact ⟨_, ⟨rfl, hfound⟩, hself.symm⟩
    · intro h
      obtain ⟨_, ⟨rfl, hfound⟩, rfl⟩ := h
      exact ⟨hself, hfound⟩

/-- An operation sees and changes nothing but the part at the next token: always if more tokens
follow, and at the last token if the node is an object. -/
theorem yields_cons_iff (operation : Operation) (token : String) (tokens : List String)
    {node : Node} (hordered : node.Ordered)
    (hshape : (∃ members, node = object members) ∨ tokens ≠ []) (result : Node) :
    operation.Yields (token :: tokens) node result ↔
      ∃ after, operation.Makes tokens (part? token node) after ∧
        result = withPart token after node := by
  cases tokens with
  | nil =>
    obtain ⟨members, rfl⟩ := hshape.resolve_right (absurd rfl)
    have hsingleton := yields_singleton_iff operation token (object members) result
    exact hsingleton.trans (leaves_object_iff operation hordered token result)
  | cons next tokens =>
    have happend := yields_append_iff operation (List.cons_ne_nil next tokens) [token] node result
    rw [List.singleton_append] at happend
    rw [happend]
    constructor
    · intro h
      obtain ⟨part, changed, hpart, hyields, rfl⟩ := h
      rw [follow_singleton, child_eq_ok_iff] at hpart
      refine ⟨some changed, ⟨part, changed, hpart, hyields, rfl⟩, ?_⟩
      rw [withPart_some, graft_cons_of_part changed [] hpart, graft]
    · intro h
      obtain ⟨_, ⟨part, changed, hpart, hyields, rfl⟩, rfl⟩ := h
      refine ⟨part, changed, ?_, hyields, ?_⟩
      · rw [follow_singleton]
        exact child_of_part _ hpart
      · rw [withPart_some, graft_cons_of_part changed [] hpart, graft]

variable {first second : Operation}

/-- Two operations that take different tokens can be swapped: each finds at its own token what it
would have found first. -/
theorem yields_swap {s t : String} (hst : s ≠ t) {ps qs : List String} {node : Node}
    (hordered : node.Ordered) (hfirst : ∀ value ∈ first.value?, value.Ordered)
    (hsecond : ∀ value ∈ second.value?, value.Ordered)
    (hshape : (∃ members, node = object members) ∨ (ps ≠ [] ∧ qs ≠ [])) {middle result : Node}
    (hmiddle : first.Yields (s :: ps) node middle)
    (hresult : second.Yields (t :: qs) middle result) :
    ∃ other, second.Yields (t :: qs) node other ∧ first.Yields (s :: ps) other result := by
  have hps : (∃ members, node = object members) ∨ ps ≠ [] := hshape.imp_right And.left
  have hqs : (∃ members, node = object members) ∨ qs ≠ [] := hshape.imp_right And.right
  have hkeeps {token : String} {part : Option Node} {tokens : List String}
      (h : (∃ members, node = object members) ∨ tokens ≠ []) :
      (∃ members, withPart token part node = object members) ∨ tokens ≠ [] := by
    rcases h with ⟨members, rfl⟩ | h
    · exact .inl ⟨_, rfl⟩
    · exact .inr h
  have hmiddleOrdered := ordered_yields hfirst hordered hmiddle
  obtain ⟨x, hx, rfl⟩ := (yields_cons_iff first s ps hordered hps middle).mp hmiddle
  obtain ⟨y, hy, rfl⟩ :=
    (yields_cons_iff second t qs hmiddleOrdered (hkeeps hqs) result).mp hresult
  rw [part?_withPart_of_ne (Ne.symm hst)] at hy
  have hother : second.Yields (t :: qs) node (withPart t y node) :=
    (yields_cons_iff second t qs hordered hqs _).mpr ⟨y, hy, rfl⟩
  refine ⟨withPart t y node, hother, ?_⟩
  apply (yields_cons_iff first s ps (ordered_yields hsecond hordered hother) (hkeeps hps) _).mpr
  refine ⟨x, ?_, withPart_comm (Ne.symm hst) y x hordered⟩
  rwa [part?_withPart_of_ne hst]

/-- The swap below tokens that both operations share. -/
theorem apply_swap {shared : List String} {s t : String} {ps qs : List String} (hst : s ≠ t)
    (hp : first.path.tokens = shared ++ s :: ps) (hq : second.path.tokens = shared ++ t :: qs)
    (hfirst : first.source? = none) (hsecond : second.source? = none)
    (hfirstValue : ∀ value ∈ first.value?, value.Ordered)
    (hsecondValue : ∀ value ∈ second.value?, value.Ordered) {document : Node}
    (hordered : document.Ordered)
    (hshape : (∃ members raw, follow raw shared document = .ok (object members)) ∨
      (ps ≠ [] ∧ qs ≠ []))
    {middle result : Node} (hmiddle : (first.apply document).outcome = .ok middle)
    (hresult : (second.apply middle).outcome = .ok result) :
    ∃ other, (second.apply document).outcome = .ok other ∧
      (first.apply other).outcome = .ok result := by
  have hpne : first.path.tokens ≠ [] := by simp [hp]
  have hqne : second.path.tokens ≠ [] := by simp [hq]
  have hmiddleOrdered := ordered_apply hfirstValue hordered hmiddle
  rw [apply_eq_ok_iff_yields hfirst hordered hpne, hp,
    yields_append_iff first (List.cons_ne_nil s ps)] at hmiddle
  obtain ⟨node, changed, hnode, hchanged, rfl⟩ := hmiddle
  rw [apply_eq_ok_iff_yields hsecond hmiddleOrdered hqne, hq,
    yields_append_iff second (List.cons_ne_nil t qs)] at hresult
  obtain ⟨node', changed', hnode', hchanged', rfl⟩ := hresult
  rw [follow_graft second.path.raw changed hnode] at hnode'
  cases hnode'
  have hnodeShape : (∃ members, node = object members) ∨ (ps ≠ [] ∧ qs ≠ []) := by
    rcases hshape with ⟨members, raw, hmembers⟩ | hlong
    · rw [follow_raw raw hnode] at hmembers
      cases hmembers
      exact .inl ⟨members, rfl⟩
    · exact .inr hlong
  obtain ⟨other, hother, hback⟩ := yields_swap hst (ordered_of_follow hordered hnode) hfirstValue
    hsecondValue hnodeShape hchanged hchanged'
  have hfirstStep : (second.apply document).outcome = .ok (graft other shared document) := by
    rw [apply_eq_ok_iff_yields hsecond hordered hqne, hq,
      yields_append_iff second (List.cons_ne_nil t qs)]
    exact ⟨node, other, follow_raw _ hnode, hother, rfl⟩
  refine ⟨graft other shared document, hfirstStep, ?_⟩
  rw [apply_eq_ok_iff_yields hfirst (ordered_apply hsecondValue hordered hfirstStep) hpne, hp,
    yields_append_iff first (List.cons_ne_nil s ps)]
  refine ⟨other, changed', follow_graft _ other hnode, hback, ?_⟩
  rw [graft_graft, graft_graft]

end Operation

namespace Patch

theorem apply_pair_eq_ok_iff (first second : Operation) (document result : Node) :
    ((⟨[first, second], List.cons_ne_nil _ _⟩ : Patch).apply document).outcome = .ok result ↔
      ∃ middle, (first.apply document).outcome = .ok middle ∧
        (second.apply middle).outcome = .ok result := by
  have hsecond (middle : Node) : (applyFrom 1 [second] middle).outcome = .ok result ↔
      (second.apply middle).outcome = .ok result := by
    rw [applyFrom_cons_outcome, bind_eq_ok]
    simp [applyFrom]
  rw [apply, applyFrom_cons_outcome, bind_eq_ok]
  simp only [hsecond]

open Node in
/-- Operations that add, remove, replace or test at places that lie apart commute: in either order
they succeed on the same documents, with the same result. -/
theorem apply_pair_comm (first second : Operation) (document : Node)
    (hfirst : first.source? = none) (hsecond : second.source? = none)
    (hfirstValue : ∀ value ∈ first.value?, value.Ordered)
    (hsecondValue : ∀ value ∈ second.value?, value.Ordered) (hordered : document.Ordered)
    (hpq : ¬first.path.tokens <+: second.path.tokens)
    (hqp : ¬second.path.tokens <+: first.path.tokens)
    (hshape : (∃ members, document.lookup
        (Pointer.spell (sharedTokens first.path.tokens second.path.tokens)) = .ok (object members)) ∨
      (sharedTokens first.path.tokens second.path.tokens).length + 1 < first.path.tokens.length ∧
      (sharedTokens first.path.tokens second.path.tokens).length + 1 < second.path.tokens.length)
    (result : Node) :
    ((⟨[first, second], List.cons_ne_nil _ _⟩ : Patch).apply document).outcome = .ok result ↔
      ((⟨[second, first], List.cons_ne_nil _ _⟩ : Patch).apply document).outcome = .ok result := by
  obtain ⟨s, t, ps, qs, hst, hp, hq⟩ := exists_fork hpq hqp
  have hfork : (∃ members raw, follow raw (sharedTokens first.path.tokens second.path.tokens)
      document = .ok (object members)) ∨ (ps ≠ [] ∧ qs ≠ []) := by
    rcases hshape with ⟨members, hmembers⟩ | ⟨hplong, hqlong⟩
    · exact .inl ⟨members, _, hmembers⟩
    · right
      have hplength := congrArg List.length hp
      have hqlength := congrArg List.length hq
      rw [List.length_append, List.length_cons] at hplength hqlength
      constructor
      · apply List.ne_nil_of_length_pos
        omega
      · apply List.ne_nil_of_length_pos
        omega
  rw [apply_pair_eq_ok_iff, apply_pair_eq_ok_iff]
  constructor
  · intro h
    obtain ⟨middle, hmiddle, hresult⟩ := h
    exact Operation.apply_swap hst hp hq hfirst hsecond hfirstValue hsecondValue hordered hfork
      hmiddle hresult
  · intro h
    obtain ⟨middle, hmiddle, hresult⟩ := h
    exact Operation.apply_swap (Ne.symm hst) hq hp hsecond hfirst hsecondValue hfirstValue hordered
      (hfork.imp_right And.symm) hmiddle hresult

open Node in
/-- A removal in one element of an array and an addition in the next. -/
theorem apply_pair_comm_in_array :
    let first := Operation.remove ⟨"/a/0/b", ["a", "0", "b"]⟩
    let second := Operation.add ⟨"/a/1/c", ["a", "1", "c"]⟩ null
    let document := object [("a", array [object [("b", null)], object [("b", bool true)]])]
    let result := object [("a", array [object [], object [("b", bool true), ("c", null)]])]
    first.source? = none ∧ second.source? = none ∧
    (∀ value ∈ first.value?, value.Ordered) ∧ (∀ value ∈ second.value?, value.Ordered) ∧
    document.Ordered ∧ ¬first.path.tokens <+: second.path.tokens ∧
    ¬second.path.tokens <+: first.path.tokens ∧
    (sharedTokens first.path.tokens second.path.tokens).length + 1 < first.path.tokens.length ∧
    (sharedTokens first.path.tokens second.path.tokens).length + 1 < second.path.tokens.length ∧
    ((⟨[second, first], List.cons_ne_nil _ _⟩ : Patch).apply document).outcome = .ok result := by
  intro first second document result
  have hfirstValue : ∀ value ∈ first.value?, value.Ordered := by
    intro value hvalue
    cases hvalue
  have hsecondValue : ∀ value ∈ second.value?, value.Ordered := by
    intro value hvalue
    cases hvalue
    trivial
  have hobject (value : Node) (hvalue : value.Ordered) (name : String) :
      (object [(name, value)]).Ordered := ⟨List.pairwise_singleton _ _, hvalue, trivial⟩
  have hitems : (array [object [("b", null)], object [("b", bool true)]]).Ordered :=
    ⟨hobject null trivial "b", hobject (bool true) trivial "b", trivial⟩
  have hordered : document.Ordered := hobject _ hitems "a"
  have hpq : ¬first.path.tokens <+: second.path.tokens := by decide
  have hqp : ¬second.path.tokens <+: first.path.tokens := by decide
  have hlong : (sharedTokens first.path.tokens second.path.tokens).length + 1 <
      first.path.tokens.length := by decide
  have hlong' : (sharedTokens first.path.tokens second.path.tokens).length + 1 <
      second.path.tokens.length := by decide
  have hcomm := apply_pair_comm first second document rfl rfl hfirstValue hsecondValue hordered
    hpq hqp (.inr ⟨hlong, hlong'⟩) result
  exact ⟨rfl, rfl, hfirstValue, hsecondValue, hordered, hpq, hqp, hlong, hlong', hcomm.mp rfl⟩

end Patch

end JsonPatch
