import JsonPatch.Proofs.Changes

namespace JsonPatch

/-- Whether a fault is about the index of an array. -/
def LocationError.IsIndexFault : LocationError → Prop
  | .indexOutOfBounds .. | .invalidIndex .. => True
  | _ => False

/-- How a token that names none of the slots of an array of a given length is reported. -/
inductive IndexRefusal (raw token : String) (length slots : Nat) : LocationError → Prop where
  | beyond (i : Nat) : Pointer.Index.ofToken token = .position i → slots ≤ i →
      IndexRefusal raw token length slots (.indexOutOfBounds raw token length)
  | pastEnd : Pointer.Index.ofToken token = .pastEnd → slots = length →
      IndexRefusal raw token length slots (.indexOutOfBounds raw token length)
  | tooLarge : Pointer.Index.ofToken token = .tooLarge →
      IndexRefusal raw token length slots (.indexOutOfBounds raw token maxLength)
  | malformed : Pointer.Index.ofToken token = .malformed →
      IndexRefusal raw token length slots (.invalidIndex raw token)

theorem IndexRefusal.isIndexFault {raw token : String} {length slots : Nat} {e : LocationError}
    (h : IndexRefusal raw token length slots e) : e.IsIndexFault := by
  cases h <;> trivial

/-- What a token outside the bounds looks like, and which length is told of it. -/
theorem IndexRefusal.outOfBounds {raw token pointer told : String} {length slots reported : Nat}
    (h : IndexRefusal raw token length slots (.indexOutOfBounds pointer told reported)) :
    pointer = raw ∧ told = token ∧
      (token = "-" ∧ slots = length ∧ reported = length ∨
        ∃ n : Nat, token = toString n ∧
          (n ≤ maxLength ∧ slots ≤ n ∧ reported = length ∨
            maxLength < n ∧ reported = maxLength)) := by
  cases h with
  | beyond i ht hle =>
    obtain ⟨htoken, hi⟩ := (Pointer.Index.ofToken_eq_position_iff token i).mp ht
    exact ⟨rfl, rfl, .inr ⟨i, htoken, .inl ⟨hi, hle, rfl⟩⟩⟩
  | pastEnd ht hslots =>
    exact ⟨rfl, rfl, .inl ⟨(Pointer.Index.ofToken_eq_pastEnd_iff token).mp ht, hslots, rfl⟩⟩
  | tooLarge ht =>
    obtain ⟨n, htoken, hn⟩ := (Pointer.Index.ofToken_eq_tooLarge_iff token).mp ht
    exact ⟨rfl, rfl, .inr ⟨n, htoken, .inr ⟨hn, rfl⟩⟩⟩

theorem IndexRefusal.invalid {raw token pointer told : String} {length slots : Nat}
    (h : IndexRefusal raw token length slots (.invalidIndex pointer told)) :
    pointer = raw ∧ told = token ∧ token ≠ "-" ∧ ∀ n : Nat, token ≠ toString n := by
  cases h with
  | malformed ht => exact ⟨rfl, rfl, (Pointer.Index.ofToken_eq_malformed_iff token).mp ht⟩

/-- The slots of the elements are the positions before the length. -/
theorem elementIndex_eq_error_iff (raw token : String) (n : Nat) (e : LocationError) :
    elementIndex raw token n = .error e ↔ IndexRefusal raw token n n e := by
  unfold elementIndex
  constructor
  · intro h
    split at h
    · rename_i i ht
      split at h
      · cases h
      · cases h
        exact .beyond i ht (by omega)
    · cases h
      exact .pastEnd ‹_› rfl
    · cases h
      exact .tooLarge ‹_›
    · cases h
      exact .malformed ‹_›
  · intro h
    cases h with
    | beyond i ht hle => simp only [ht, dif_neg (Nat.not_lt_of_le hle)]
    | pastEnd ht _ => simp only [ht]
    | tooLarge ht => simp only [ht]
    | malformed ht => simp only [ht]

/-- A new element has one slot more, behind the last element. -/
theorem insertionIndex_eq_error_iff (raw token : String) (n : Nat) (e : LocationError) :
    insertionIndex raw token n = .error e ↔ IndexRefusal raw token n (n + 1) e := by
  unfold insertionIndex
  constructor
  · intro h
    split at h
    · rename_i i ht
      split at h
      · cases h
      · cases h
        exact .beyond i ht (by omega)
    · cases h
    · cases h
      exact .tooLarge ‹_›
    · cases h
      exact .malformed ‹_›
  · intro h
    cases h with
    | beyond i ht hle => simp only [ht, dif_neg (Nat.not_lt_of_le hle)]
    | pastEnd _ hslots => omega
    | tooLarge ht => simp only [ht]
    | malformed ht => simp only [ht]

namespace Node

/-- A refused token names no part. -/
theorem part?_of_refusal {raw token : String} {items : List Node} {slots : Nat}
    {e : LocationError} (hslots : items.length ≤ slots)
    (h : IndexRefusal raw token items.length slots e) : part? token (array items) = none := by
  cases h with
  | beyond i ht hle =>
    simp only [part?, ht, List.getElem?_eq_none_iff]
    omega
  | pastEnd ht _ => simp only [part?, ht]
  | tooLarge ht => simp only [part?, ht]
  | malformed ht => simp only [part?, ht]

/-- A way fails where the first of its tokens leads nowhere, with the fault of that token. -/
theorem follow_eq_error_iff (raw : String) (tokens : List String) (node : Node)
    (e : LocationError) :
    follow raw tokens node = .error e ↔
      ∃ before token after part, tokens = before ++ token :: after ∧
        follow raw before node = .ok part ∧ child raw token part = .error e := by
  constructor
  · intro h
    induction tokens generalizing node with
    | nil => cases h
    | cons token tokens ih =>
      rw [follow, bind_eq_error] at h
      obtain hchild | ⟨next, hnext, hrest⟩ := h
      · exact ⟨[], token, tokens, node, rfl, rfl, hchild⟩
      · obtain ⟨before, last, after, part, rfl, hpart, hfault⟩ := ih next hrest
        refine ⟨token :: before, last, after, part, rfl, ?_, hfault⟩
        rw [follow, bind_eq_ok]
        exact ⟨next, hnext, hpart⟩
  · intro h
    obtain ⟨before, token, after, part, rfl, hpart, hfault⟩ := h
    rw [follow_append, bind_eq_error]
    refine .inr ⟨part, hpart, ?_⟩
    rw [follow, bind_eq_error]
    exact .inl hfault

theorem edit_eq_error_iff (raw : String) (change : Change) (place : List String) (token : String)
    (document : Node) (e : LocationError) :
    edit raw change place token document = .error e ↔
      follow raw place document = .error e ∨
      ∃ container, follow raw place document = .ok container ∧
        (change container token).outcome = .error e := by
  rw [edit, bind_eq_error]
  constructor
  · intro h
    rcases h with hplace | ⟨container, hcontainer, hrest⟩
    · exact .inl hplace
    · obtain hchange | ⟨changed, _, hresult⟩ := bind_eq_error.mp hrest
      · exact .inr ⟨container, hcontainer, hchange⟩
      · cases hresult
  · intro h
    rcases h with hplace | ⟨container, hcontainer, hchange⟩
    · exact .inl hplace
    · exact .inr ⟨container, hcontainer, bind_eq_error.mpr (.inl hchange)⟩

end Node

/-- What can be asked of a place of a document. -/
inductive Access where
  | lookup
  | add (value : Node)
  | remove
  | replace (value : Node)

namespace Access

open Node

/-- How an access to a place ends. -/
def outcome (document : Node) (p : Pointer) : Access → Except LocationError Node
  | lookup => document.lookup p
  | add value => (document.add p value).outcome
  | remove => (document.remove p).outcome
  | replace value => (document.replace p value).outcome

/-- What an access does in the container that holds the last token. -/
def atLast (raw : String) (container : Node) (token : String) : Access → Except LocationError Node
  | lookup => child raw token container
  | add value => (insertChild raw value container token).outcome
  | remove => (removeChild raw container token).outcome
  | replace value => (setChild raw value container token).outcome

/-- How many positions the last token can name in an array of a given length. -/
def slots (length : Nat) : Access → Nat
  | add _ => length + 1
  | _ => length

theorem le_slots (access : Access) (length : Nat) : length ≤ access.slots length := by
  cases access <;> simp [slots]

theorem outcome_root {p : Pointer} (h : p.tokens = []) (access : Access) (document : Node) :
    ∃ result, access.outcome document p = .ok result := by
  cases access with
  | lookup => exact ⟨_, lookup_root h document⟩
  | add value => exact ⟨_, add_outcome_root h document value⟩
  | remove => exact ⟨_, remove_outcome_root h document⟩
  | replace value => exact ⟨_, replace_outcome_root h document value⟩

theorem outcome_of_concat {p : Pointer} {place : List String} {last : String}
    (h : p.tokens = place ++ [last]) (access : Access) (document : Node) (e : LocationError) :
    access.outcome document p = .error e ↔
      follow p.raw place document = .error e ∨
      ∃ container, follow p.raw place document = .ok container ∧
        access.atLast p.raw container last = .error e := by
  cases access with
  | lookup =>
    simp only [outcome, atLast, Node.lookup, h, follow_append, bind_eq_error, follow_singleton]
  | add value =>
    rw [outcome, add_outcome h, edit_eq_error_iff]
    rfl
  | remove =>
    rw [outcome, remove_outcome h, edit_eq_error_iff]
    rfl
  | replace value =>
    rw [outcome, replace_outcome h, edit_eq_error_iff]
    rfl

/-- What is done at a token that others may come after. -/
def step (access : Access) : List String → Access
  | [] => access
  | _ :: _ => lookup

theorem step_concat (access : Access) (tokens : List String) (last : String) :
    access.step (tokens ++ [last]) = lookup := by
  cases tokens <;> rfl

/-- A list is cut at its last element or before. -/
theorem cut_cases {place before after : List String} {last token : String}
    (h : place ++ [last] = before ++ token :: after) :
    (after = [] ∧ place = before ∧ last = token) ∨
      ∃ rest, after = rest ++ [last] ∧ place = before ++ token :: rest := by
  rcases List.eq_nil_or_concat after with rfl | ⟨rest, other, rfl⟩
  · obtain ⟨hplace, hlast⟩ := List.append_inj' h rfl
    exact .inl ⟨rfl, hplace, (List.cons.inj hlast).1⟩
  · have hsame : place ++ [last] = (before ++ token :: rest) ++ [other] := by
      rw [h, List.append_assoc, List.cons_append, List.concat_eq_append]
    obtain ⟨hplace, hlast⟩ := List.append_inj' hsame rfl
    exact .inr ⟨rest, by rw [hlast, List.concat_eq_append], hplace⟩

/-- An access fails at the first token that leads nowhere, with the fault of that token. -/
theorem outcome_eq_error_iff (access : Access) (document : Node) (p : Pointer)
    (e : LocationError) :
    access.outcome document p = .error e ↔
      ∃ before token after part, p.tokens = before ++ token :: after ∧
        follow p.raw before document = .ok part ∧
        (access.step after).atLast p.raw part token = .error e := by
  rcases tokens_cases p with hroot | ⟨place, last, hplace⟩
  · obtain ⟨result, hresult⟩ := outcome_root hroot access document
    simp [hresult, hroot]
  · rw [outcome_of_concat hplace, hplace]
    constructor
    · intro h
      rcases h with hway | ⟨container, hcontainer, hlast⟩
      · obtain ⟨before, token, after, part, rfl, hpart, hfault⟩ :=
          (follow_eq_error_iff p.raw place document e).mp hway
        refine ⟨before, token, after ++ [last], part, by simp, hpart, ?_⟩
        rw [step_concat]
        exact hfault
      · exact ⟨place, last, [], container, rfl, hcontainer, hlast⟩
    · intro h
      obtain ⟨before, token, after, part, hsplit, hpart, hfault⟩ := h
      rcases cut_cases hsplit with ⟨rfl, rfl, rfl⟩ | ⟨rest, rfl, hrest⟩
      · exact .inr ⟨part, hpart, hfault⟩
      · rw [step_concat] at hfault
        exact .inl ((follow_eq_error_iff p.raw place document e).mpr
          ⟨before, token, rest, part, hrest, hpart, hfault⟩)

/-- Of a change at an index only the index can be at fault. -/
theorem index_bind_eq_error_iff {n : Nat} (index : Except LocationError (Fin n)) (f : Fin n → Node)
    (e : LocationError) : (index >>= fun i => .ok (f i)) = .error e ↔ index = .error e := by
  rw [bind_eq_error]
  constructor
  · intro h
    rcases h with hindex | ⟨_, _, hok⟩
    · exact hindex
    · cases hok
  · exact .inl

theorem atLast_array (access : Access) (raw token : String) (items : List Node)
    (e : LocationError) :
    access.atLast raw (array items) token = .error e ↔
      IndexRefusal raw token items.length (access.slots items.length) e := by
  cases access with
  | lookup => exact (index_bind_eq_error_iff _ _ e).trans (elementIndex_eq_error_iff raw token _ e)
  | add value =>
    simp only [atLast, insertChild, Traced.outcome_bind, Traced.outcome_ofExcept,
      Traced.outcome_pure]
    exact (index_bind_eq_error_iff _ _ e).trans (insertionIndex_eq_error_iff raw token _ e)
  | remove =>
    simp only [atLast, removeChild, Traced.outcome_bind, Traced.outcome_ofExcept,
      Traced.outcome_pure]
    exact (index_bind_eq_error_iff _ _ e).trans (elementIndex_eq_error_iff raw token _ e)
  | replace value =>
    simp only [atLast, setChild, Traced.outcome_bind, Traced.outcome_ofExcept,
      Traced.outcome_pure]
    exact (index_bind_eq_error_iff _ _ e).trans (elementIndex_eq_error_iff raw token _ e)

theorem atLast_object {access : Access} {raw token : String} {members : List (String × Node)}
    {e : LocationError} (h : access.atLast raw (object members) token = .error e) :
    ¬e.IsIndexFault := by
  cases access with
  | lookup =>
    rw [atLast, child] at h
    split at h
    · cases h
    · cases h
      exact id
  | add value => cases h
  | remove =>
    rw [atLast, removeChild_object] at h
    cases h
  | replace value => cases h

theorem atLast_scalar {access : Access} {raw token : String} {node : Node} {e : LocationError}
    (h : access.atLast raw node token = .error e) (hnode : node.IsScalar) : ¬e.IsIndexFault := by
  have hkind : ∃ kind, access.atLast raw node token = .error (.notAContainer raw kind) := by
    cases access with
    | lookup => exact child_scalar hnode raw token
    | add value => exact insertChild_scalar hnode raw value token
    | remove => exact removeChild_scalar hnode raw token
    | replace value => exact setChild_scalar hnode raw value token
  obtain ⟨kind, hkind⟩ := hkind
  rw [hkind] at h
  cases h
  exact id

/-- In a container an index is at fault exactly when the container is an array that refuses it. -/
theorem atLast_eq_indexFault_iff (access : Access) (raw token : String) (container : Node)
    (e : LocationError) :
    access.atLast raw container token = .error e ∧ e.IsIndexFault ↔
      ∃ items, container = array items ∧
        IndexRefusal raw token items.length (access.slots items.length) e := by
  constructor
  · intro h
    obtain ⟨hfault, hindex⟩ := h
    cases container with
    | array items => exact ⟨items, rfl, (access.atLast_array raw token items e).mp hfault⟩
    | object members => exact absurd hindex (atLast_object hfault)
    | _ => exact absurd hindex (atLast_scalar hfault trivial)
  · intro h
    obtain ⟨items, rfl, hrefused⟩ := h
    exact ⟨(access.atLast_array raw token items e).mpr hrefused, hrefused.isIndexFault⟩

/-- The index faults of an access are those of the first token that leads nowhere, if it meets an
array. -/
theorem outcome_eq_indexFault_iff (access : Access) (document : Node) (p : Pointer)
    (e : LocationError) :
    access.outcome document p = .error e ∧ e.IsIndexFault ↔
      ∃ before token after items, p.tokens = before ++ token :: after ∧
        follow p.raw before document = .ok (array items) ∧
        IndexRefusal p.raw token items.length ((access.step after).slots items.length) e := by
  rw [outcome_eq_error_iff]
  constructor
  · intro h
    obtain ⟨⟨before, token, after, part, hsplit, hpart, hfault⟩, hindex⟩ := h
    obtain ⟨items, rfl, hrefused⟩ :=
      (atLast_eq_indexFault_iff _ p.raw token part e).mp ⟨hfault, hindex⟩
    exact ⟨before, token, after, items, hsplit, hpart, hrefused⟩
  · intro h
    obtain ⟨before, token, after, items, hsplit, hpart, hrefused⟩ := h
    obtain ⟨hfault, hindex⟩ :=
      (atLast_eq_indexFault_iff _ p.raw token (array items) e).mpr ⟨items, rfl, hrefused⟩
    exact ⟨⟨before, token, after, _, hsplit, hpart, hfault⟩, hindex⟩

/-- Whether an access puts a new element where the token at a depth leads. -/
def InsertsAt (access : Access) (p : Pointer) (depth : Nat) : Prop :=
  (∃ value, access = add value) ∧ depth + 1 = p.tokens.length

theorem InsertsAt.slots_step {access : Access} {p : Pointer} {before after : List String}
    {token : String} (h : access.InsertsAt p before.length)
    (hsplit : p.tokens = before ++ token :: after) (length : Nat) :
    (access.step after).slots length = length + 1 := by
  obtain ⟨⟨value, rfl⟩, hlast⟩ := h
  obtain rfl : after = [] := by simpa [hsplit] using hlast
  rfl

end Access

/-- A pointer leads to an array with the tokens before a depth, and nowhere with the next one. -/
structure StopsInArray (document : Node) (p : Pointer) (depth : Nat) (token : String)
    (items : List Node) : Prop where
  token_at : p.tokens[depth]? = some token
  reached : document.lookup (.spell (p.tokens.take depth)) = .ok (.array items)
  stopped : ∀ part, document.lookup (.spell (p.tokens.take (depth + 1))) ≠ .ok part

open Node in
theorem stopsInArray_of_refusal {document : Node} {p : Pointer} {before after : List String}
    {token : String} {items : List Node} {slots : Nat} {e : LocationError}
    (hsplit : p.tokens = before ++ token :: after)
    (hreached : follow p.raw before document = .ok (array items))
    (hslots : items.length ≤ slots) (h : IndexRefusal p.raw token items.length slots e) :
    StopsInArray document p before.length token items := by
  have htaken : p.tokens.take (before.length + 1) = before ++ [token] := by
    rw [hsplit, List.take_length_add_append]
    rfl
  refine ⟨by simp [hsplit], ?_, ?_⟩
  · rw [hsplit, List.take_left, lookup]
    exact follow_raw _ hreached
  · intro part hpart
    rw [htaken] at hpart
    obtain ⟨container, hcontainer, hnamed⟩ := (lookup_eq_ok_iff rfl document part).mp hpart
    obtain rfl : array items = container :=
      Except.ok.inj ((follow_raw _ hreached).symm.trans hcontainer)
    rw [part?_of_refusal hslots h] at hnamed
    cases hnamed

/-- An access that has an index fault stops in an array, which refuses the next token. -/
theorem Access.exists_stop {access : Access} {document : Node} {p : Pointer} {e : LocationError}
    (h : access.outcome document p = .error e) (he : e.IsIndexFault) :
    ∃ depth token items slots, StopsInArray document p depth token items ∧
      IndexRefusal p.raw token items.length slots e ∧ items.length ≤ slots ∧
      (access.InsertsAt p depth → slots = items.length + 1) := by
  obtain ⟨before, token, after, items, hsplit, hreached, hrefused⟩ :=
    (access.outcome_eq_indexFault_iff document p e).mp ⟨h, he⟩
  have hslots := (access.step after).le_slots items.length
  have hstops := stopsInArray_of_refusal hsplit hreached hslots hrefused
  exact ⟨before.length, token, items, _, hstops, hrefused, hslots,
    fun hinserts => hinserts.slots_step hsplit items.length⟩

/-- A fault of an index names the pointer, and the first token that leads nowhere, where it meets an
array. The length is that of the array, unless the token exceeds a 64-bit word. -/
theorem Access.index_faults_located (access : Access) (document : Node) (p : Pointer) :
    (∀ pointer token length,
      access.outcome document p = .error (.indexOutOfBounds pointer token length) →
        pointer = p.raw ∧ ∃ depth items, StopsInArray document p depth token items ∧
          (token = "-" ∧ ¬access.InsertsAt p depth ∧ length = items.length ∨
            ∃ n : Nat, token = toString n ∧ length ≤ n ∧
              (access.InsertsAt p depth → length < n) ∧
              (n ≤ maxLength ∧ length = items.length ∨ maxLength < n ∧ length = maxLength))) ∧
    ∀ pointer token, access.outcome document p = .error (.invalidIndex pointer token) →
      pointer = p.raw ∧ ∃ depth items, StopsInArray document p depth token items ∧
        token ≠ "-" ∧ ∀ n : Nat, token ≠ toString n := by
  constructor
  · intro pointer told length h
    obtain ⟨depth, token, items, slots, hstops, hrefused, hslots, hinsertion⟩ :=
      exists_stop h trivial
    obtain ⟨rfl, rfl, ⟨hdash, hroom, rfl⟩ | ⟨n, htoken, hn⟩⟩ := hrefused.outOfBounds
    · have hplain : ¬access.InsertsAt p depth := by
        intro hinserts
        have hmore := hinsertion hinserts
        omega
      exact ⟨rfl, depth, items, hstops, .inl ⟨hdash, hplain, rfl⟩⟩
    · have hleast : length ≤ n := by omega
      have hbeyond : access.InsertsAt p depth → length < n := by
        intro hinserts
        have hmore := hinsertion hinserts
        omega
      refine ⟨rfl, depth, items, hstops, .inr ⟨n, htoken, hleast, hbeyond, ?_⟩⟩
      obtain ⟨hfits, -, hlength⟩ | hlarge := hn
      · exact .inl ⟨hfits, hlength⟩
      · exact .inr hlarge
  · intro pointer told h
    obtain ⟨depth, token, items, slots, hstops, hrefused, -, -⟩ := exists_stop h trivial
    obtain ⟨rfl, rfl, hdash, hdecimal⟩ := hrefused.invalid
    exact ⟨rfl, depth, items, hstops, hdash, hdecimal⟩

/-- An addition two places behind the one element of an array, and an index with a needless zero. -/
theorem Access.index_faults_located_in_member :
    let document := Node.object [("a", .array [.null])]
    let far : Pointer := ⟨"/a/2", ["a", "2"]⟩
    let padded : Pointer := ⟨"/a/00/b", ["a", "00", "b"]⟩
    ((Access.add .null).outcome document far = .error (.indexOutOfBounds "/a/2" "2" 1) ∧
      ∃ depth items, StopsInArray document far depth "2" items ∧ items.length = 1) ∧
    (Access.remove.outcome document padded = .error (.invalidIndex "/a/00/b" "00") ∧
      ∃ depth items, StopsInArray document padded depth "00" items ∧
        ∀ n : Nat, "00" ≠ toString n) := by
  intro document far padded
  have hfar : (Access.add .null).outcome document far =
      .error (.indexOutOfBounds "/a/2" "2" 1) := rfl
  have hpadded : Access.remove.outcome document padded =
      .error (.invalidIndex "/a/00/b" "00") := rfl
  refine ⟨⟨hfar, ?_⟩, hpadded, ?_⟩
  · obtain ⟨-, depth, items, hstops, ⟨hdash, -⟩ | ⟨n, -, -, -, ⟨-, hlength⟩ | ⟨-, hlength⟩⟩⟩ :=
      (Access.index_faults_located (.add .null) document far).1 _ _ _ hfar
    · exact absurd hdash (by decide)
    · exact ⟨depth, items, hstops, hlength.symm⟩
    · exact absurd hlength (by decide)
  · obtain ⟨-, depth, items, hstops, -, hdecimal⟩ :=
      (Access.index_faults_located .remove document padded).2 _ _ hpadded
    exact ⟨depth, items, hstops, hdecimal⟩

/-- In an array without elements the index 2⁶⁴ is reported with a length of 2⁶⁴ - 1, so the reported
length is not that of the array. -/
theorem Access.reported_length_unlike_array :
    let document := Node.array []
    let p : Pointer := ⟨"/18446744073709551616", ["18446744073709551616"]⟩
    Access.lookup.outcome document p =
      .error (.indexOutOfBounds p.raw "18446744073709551616" 18446744073709551615) ∧
    ¬∃ depth items, p.tokens[depth]? = some "18446744073709551616" ∧
      document.lookup (.spell (p.tokens.take depth)) = .ok (.array items) ∧
      items.length = 18446744073709551615 := by
  intro document p
  refine ⟨rfl, ?_⟩
  intro h
  obtain ⟨depth, items, htoken, hreached, hlength⟩ := h
  cases depth with
  | zero =>
    obtain rfl : [] = items := Node.array.inj (Except.ok.inj hreached)
    cases hlength
  | succ depth => cases htoken

end JsonPatch
