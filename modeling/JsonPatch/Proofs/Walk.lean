import JsonPatch.Proofs.Descent

namespace JsonPatch

namespace Node

/-- What a token leads to in an array depends on the length and on the element that it names. -/
theorem child_array_congr (raw token : String) {xs ys : List Node} (hlen : xs.length = ys.length)
    (hget : ∀ i, Pointer.Index.ofToken token = .position i → xs[i]? = ys[i]?) :
    child raw token (array xs) = child raw token (array ys) := by
  simp only [child]
  cases hx : elementIndex raw token xs.length with
  | ok i =>
    have hi := (elementIndex_eq_ok_iff raw token xs.length i).mp hx
    have hlt : (i : Nat) < ys.length := hlen ▸ i.isLt
    have hi' := hget i hi
    rw [List.getElem?_eq_getElem i.isLt, List.getElem?_eq_getElem hlt] at hi'
    rw [elementIndex_of_lt raw hi hlt]
    change Except.ok xs[(i : Nat)] = Except.ok ys[(i : Nat)]
    rw [Option.some.inj hi']
  | error e =>
    rw [hlen] at hx
    rw [hx]
    rfl

/-- What is put at one token leaves what the others lead to, and why they lead nowhere. -/
theorem child_putPart_of_ne (raw : String) {token other : String} (h : other ≠ token)
    (part node : Node) : child raw other (putPart token part node) = child raw other node := by
  cases node with
  | object members => simp only [putPart, child, Members.lookup_insert_of_ne h]
  | array items =>
    cases hi : Pointer.Index.ofToken token with
    | position i =>
      simp only [putPart, hi]
      apply child_array_congr raw other List.length_set
      intro j hj
      have hij : i ≠ j := by
        intro hij
        subst hij
        exact h (Pointer.Index.token_inj hj hi)
      exact List.getElem?_set_ne hij
    | pastEnd => simp only [putPart, hi]
    | tooLarge => simp only [putPart, hi]
    | malformed => simp only [putPart, hi]
  | null => rfl
  | bool b => rfl
  | number n => rfl
  | string s => rfl

theorem part?_putPart_of_ne {token other : String} (h : other ≠ token) (part node : Node) :
    part? other (putPart token part node) = part? other node := by
  apply Option.ext
  intro found
  rw [← child_eq_ok_iff "" other, ← child_eq_ok_iff "" other, child_putPart_of_ne "" h]

theorem child_putPart_self (raw : String) {token : String} {node old : Node}
    (h : part? token node = some old) (part : Node) :
    child raw token (putPart token part node) = .ok part :=
  child_of_part raw (part?_putPart h part)

/-- A path that leaves the way to a place at some token leads where it led before the place got a
new node, or fails as it did. -/
theorem follow_graft_of_ne (raw : String) (new : Node) {place path : List String} {i : Nat}
    {token other : String} (hplace : place[i]? = some token) (hpath : path[i]? = some other)
    (hne : other ≠ token) (node : Node) :
    follow raw path (graft new place node) = follow raw path node := by
  induction place generalizing path i node with
  | nil => simp at hplace
  | cons t place ih =>
    cases hpart : part? t node with
    | none => rw [graft, hpart]
    | some part =>
      rw [graft_cons_of_part new place hpart]
      cases path with
      | nil => simp at hpath
      | cons u path =>
        simp only [follow]
        by_cases hut : u = t
        · subst hut
          rw [child_putPart_self raw hpart, child_of_part raw hpart]
          cases i with
          | zero =>
            simp only [List.getElem?_cons_zero, Option.some.injEq] at hplace hpath
            exact absurd (hpath.symm.trans hplace) hne
          | succ i =>
            simp only [List.getElem?_cons_succ] at hplace hpath
            exact ih hplace hpath part
        · rw [child_putPart_of_ne raw hut]

end Node

/-- The fault, told of another pointer. -/
def LocationError.ofPointer (raw : String) : LocationError → LocationError
  | .indexOutOfBounds _ token length => .indexOutOfBounds raw token length
  | .invalidIndex _ token => .invalidIndex raw token
  | .missingMember _ name => .missingMember raw name
  | .notAContainer _ kind => .notAContainer raw kind
  | .insideSource _ source => .insideSource raw source

theorem elementIndex_mapError (raw other token : String) (n : Nat) :
    elementIndex raw token n = (elementIndex other token n).mapError (.ofPointer raw) := by
  unfold elementIndex
  cases Pointer.Index.ofToken token with
  | position i =>
    by_cases hi : i < n
    · simp only [dif_pos hi]
      rfl
    · simp only [dif_neg hi]
      rfl
  | pastEnd => rfl
  | tooLarge => rfl
  | malformed => rfl

namespace Node

theorem child_mapError (raw other token : String) (node : Node) :
    child raw token node = (child other token node).mapError (.ofPointer raw) := by
  cases node with
  | object members =>
    simp only [child]
    cases members.lookup token <;> rfl
  | array items =>
    simp only [child]
    rw [elementIndex_mapError raw other]
    cases elementIndex other token items.length <;> rfl
  | null => rfl
  | bool b => rfl
  | number n => rfl
  | string s => rfl

/-- Two pointers of the same tokens lead to the same part, or fail alike, each under its own name. -/
theorem follow_mapError (raw other : String) (tokens : List String) (node : Node) :
    follow raw tokens node = (follow other tokens node).mapError (.ofPointer raw) := by
  induction tokens generalizing node with
  | nil => rfl
  | cons token tokens ih =>
    simp only [follow]
    rw [child_mapError raw other]
    cases child other token node with
    | error e => rfl
    | ok part => exact ih part

/-- What a document is after the node in one place was replaced. -/
structure ReplacedAt (place : Pointer) (new document result : Node) : Prop where
  /-- The new node stands in the place. -/
  here : result.lookup place = .ok new
  /-- Paths that differ from the place at some token lead where they led, or fail as they did. -/
  elsewhere : ∀ (path : Pointer) (i : Nat) (token other : String), place.tokens[i]? = some token →
    path.tokens[i]? = some other → other ≠ token → result.lookup path = document.lookup path
  /-- A node replaced by itself leaves the whole document as it is. -/
  unchanged : document.lookup place = .ok new → result = document

theorem replacedAt_graft {document old : Node} {place : Pointer} (hordered : document.Ordered)
    (h : document.lookup place = .ok old) (new : Node) :
    ReplacedAt place new document (graft new place.tokens document) := by
  constructor
  · exact follow_graft place.raw new h
  · intro path i token other hplace hpath hne
    exact follow_graft_of_ne path.raw new hplace hpath hne document
  · intro hsame
    exact graft_self hordered hsame

/-- A descent goes where a lookup of all tokens but the last goes, fails where it fails, and calls
the change once, on the container that it finds. -/
theorem descend_walks_as_lookup (document : Node) (p parent : Pointer) (first last : String)
    (tokens : List String) (change : Change) (hordered : document.Ordered)
    (hfirst : p.tokens = first :: tokens) (hlast : p.tokens = parent.tokens ++ [last]) :
    (∀ e, document.lookup parent = .error e →
      descend p.raw change 0 first tokens document =
        ⟨(walk p.raw 0 parent.tokens document).events, .error (e.ofPointer p.raw)⟩) ∧
    (∀ container, document.lookup parent = .ok container →
      (descend p.raw change 0 first tokens document).events =
        (walk p.raw 0 parent.tokens document).events ++ (change container last).events ∧
      (∀ e, (change container last).outcome = .error e →
        (descend p.raw change 0 first tokens document).outcome = .error e) ∧
      (∀ new, (change container last).outcome = .ok new →
        ∃ result, (descend p.raw change 0 first tokens document).outcome = .ok result ∧
          ReplacedAt parent new document result)) := by
  have hwalk := descend_eq_walk p.raw change 0 first tokens document parent.tokens last
    (hfirst.symm.trans hlast)
  have hfollow : (walk p.raw 0 parent.tokens document).outcome =
      (document.lookup parent).mapError (.ofPointer p.raw) := by
    rw [walk_outcome, lookup]
    exact follow_mapError p.raw parent.raw parent.tokens document
  rw [hwalk]
  constructor
  · intro e he
    rw [he] at hfollow
    exact Traced.bind_of_error hfollow _
  · intro container hcontainer
    rw [hcontainer] at hfollow
    rw [Traced.bind_of_ok hfollow]
    cases hchange : (change container last).outcome with
    | error e =>
      rw [Traced.bind_of_error hchange]
      refine ⟨rfl, ?_, ?_⟩
      · intro f hf
        cases hf
        rfl
      · intro new hnew
        cases hnew
    | ok changed =>
      rw [Traced.bind_of_ok hchange]
      refine ⟨?_, ?_, ?_⟩
      · change _ ++ ((change container last).events ++ []) = _
        rw [List.append_nil]
      · intro f hf
        cases hf
      · intro new hnew
        cases hnew
        exact ⟨_, rfl, replacedAt_graft hordered hcontainer changed⟩

/-- A member set inside the second element of an array, and a member looked for in a number. -/
theorem descend_walks_as_lookup_in_array :
    let one := number (.integer 1 (by decide) (by decide))
    let document := object [("a", array [one, object [("b", null)]])]
    let new := object [("b", one)]
    let change := setChild "/a/1/b" one
    document.Ordered ∧
    (∃ result, (descend "/a/1/b" change 0 "a" ["1", "b"] document).outcome = .ok result ∧
      ReplacedAt ⟨"/a/1", ["a", "1"]⟩ new document result) ∧
    (descend "/a/0/c/d" change 0 "a" ["0", "c", "d"] document).outcome =
      .error (.notAContainer "/a/0/c/d" "number") := by
  intro one document new change
  have hordered : document.Ordered :=
    ⟨List.pairwise_singleton _ _, ⟨trivial, ⟨List.pairwise_singleton _ _, trivial, trivial⟩, trivial⟩,
      trivial⟩
  refine ⟨hordered, ?_, ?_⟩
  · have hfound := (descend_walks_as_lookup document ⟨"/a/1/b", ["a", "1", "b"]⟩
      ⟨"/a/1", ["a", "1"]⟩ "a" "b" ["1", "b"] change hordered rfl rfl).2 (object [("b", null)]) rfl
    exact hfound.2.2 new rfl
  · have hfault := (descend_walks_as_lookup document ⟨"/a/0/c/d", ["a", "0", "c", "d"]⟩
      ⟨"/a/0/c", ["a", "0", "c"]⟩ "a" "d" ["0", "c", "d"] change hordered rfl rfl).1
      (.notAContainer "/a/0/c" "number") rfl
    rw [hfault]
    rfl

end Node

end JsonPatch
