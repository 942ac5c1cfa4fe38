import JsonPatch.Proofs.Members
import JsonPatch.Proofs.Json.Scan

namespace JsonPatch.Json

mutual

/-- How deep the containers of a value nest. -/
def depth : Json → Nat
  | .array items => itemsDepth items + 1
  | .object members => membersDepth members + 1
  | _ => 0

/-- The largest depth of the elements of an array. -/
def itemsDepth : List Json → Nat
  | [] => 0
  | item :: items => max (depth item) (itemsDepth items)

/-- The largest depth of the values of an object. -/
def membersDepth : List (String × Json) → Nat
  | [] => 0
  | (_, value) :: members => max (depth value) (membersDepth members)

end

namespace Reading

/-- The value of tokens that are read from a state on. -/
def run (p : Reading) (tokens : List Token) : Option Json := (tokens.foldlM step p).bind result?

theorem run_cons (p : Reading) (token : Token) (tokens : List Token) :
    run p (token :: tokens) = (p.step token).bind fun p => run p tokens := by
  simp only [run, List.foldlM_cons, Option.bind_eq_bind, Option.bind_assoc]

/-- A value may come next. -/
def TakesValue (expected : Expected) : Prop := expected = .value ∨ expected = .valueOrEnd

theorem step_value {expected : Expected} (h : TakesValue expected) (frames : List Frame)
    {token : Token} (hend : token ≠ .endArray) :
    step ⟨frames, expected⟩ token = beginValue frames token := by
  rcases h with rfl | rfl
  · rfl
  · cases token with
    | endArray => exact absurd rfl hend
    | _ => rfl

theorem step_beginArray {expected : Expected} (h : TakesValue expected) {frames : List Frame}
    (hroom : frames.length < maxDepth) :
    step ⟨frames, expected⟩ .beginArray = some ⟨.array [] :: frames, .valueOrEnd⟩ := by
  rw [step_value h frames (by simp), beginValue, if_pos hroom]

theorem step_beginObject {expected : Expected} (h : TakesValue expected) {frames : List Frame}
    (hroom : frames.length < maxDepth) :
    step ⟨frames, expected⟩ .beginObject = some ⟨frames, .nameOrEnd⟩ := by
  rw [step_value h frames (by simp), beginValue, if_pos hroom]

theorem run_no_room {expected : Expected} (h : TakesValue expected) {frames : List Frame}
    (hfull : ¬frames.length < maxDepth) {token : Token}
    (htoken : token = .beginArray ∨ token = .beginObject) (tokens : List Token) :
    run ⟨frames, expected⟩ (token :: tokens) = none := by
  have hstep : step ⟨frames, expected⟩ token = none := by
    rcases htoken with rfl | rfl
    · rw [step_value h frames (by simp), beginValue, if_neg hfull]
    · rw [step_value h frames (by simp), beginValue, if_neg hfull]
  rw [run_cons, hstep]
  rfl

theorem run_scalar {value : Json} {token : Token} {frames : List Frame} {expected : Expected}
    (htokens : value.tokens = [token]) (hdepth : value.depth = 0)
    (hframes : frames.length ≤ maxDepth) (h : TakesValue expected) (hend : token ≠ .endArray)
    (hbegin : beginValue frames token = some ⟨frames, .separator value⟩) (rest : List Token) :
    run ⟨frames, expected⟩ (value.tokens ++ rest) =
      if frames.length + value.depth ≤ maxDepth then run ⟨frames, .separator value⟩ rest
      else none := by
  rw [hdepth, Nat.add_zero, if_pos hframes, htokens, List.singleton_append, run_cons,
    step_value h frames hend, hbegin, Option.bind_some]

theorem insert_last {before members : List (String × Json)} {name : String} {value : Json}
    (h : Members.Ascending (before ++ (name, value) :: members)) :
    Members.insert name value before = before ++ [(name, value)] := by
  refine Members.insert_of_forall_lt name value before ?_
  intro m hm
  exact (List.pairwise_append.mp h).2.2 m hm _ List.mem_cons_self

mutual

/-- The tokens of a value are read as the value, if there is room for its containers. -/
theorem run_tokens : (value : Json) → value.Canonical → (frames : List Frame) →
    frames.length ≤ maxDepth → (expected : Expected) → TakesValue expected →
    (rest : List Token) →
    run ⟨frames, expected⟩ (value.tokens ++ rest) =
      if frames.length + value.depth ≤ maxDepth then run ⟨frames, .separator value⟩ rest else none
  | .null, _, frames, hframes, _, h, rest => run_scalar rfl rfl hframes h (by simp) rfl rest
  | .bool b, _, frames, hframes, _, h, rest => run_scalar rfl rfl hframes h (by simp) rfl rest
  | .number n, _, frames, hframes, _, h, rest => run_scalar rfl rfl hframes h (by simp) rfl rest
  | .string s, _, frames, hframes, _, h, rest => run_scalar rfl rfl hframes h (by simp) rfl rest
  | .array [], _, frames, _, _, h, rest => by
    by_cases hroom : frames.length < maxDepth
    · rw [if_pos (by simp only [depth, itemsDepth]; omega)]
      change run _ (.beginArray :: .endArray :: rest) = _
      rw [run_cons, step_beginArray h hroom, Option.bind_some]
      rfl
    · rw [if_neg (by simp only [depth, itemsDepth]; omega)]
      exact run_no_room h hroom (.inl rfl) _
  | .array (item :: items), hcanonical, frames, _, _, h, rest => by
    by_cases hroom : frames.length < maxDepth
    · change run _ (.beginArray :: (item.tokens ++ itemTokens items ++ rest)) = _
      rw [run_cons, step_beginArray h hroom, Option.bind_some, List.append_assoc,
        run_tokens item hcanonical.1 (.array [] :: frames) hroom .valueOrEnd (.inr rfl),
        run_itemTokens items hcanonical.2 frames [] item hroom, ← ite_and]
      simp only [List.length_cons, depth, itemsDepth, List.reverse_nil, List.nil_append]
      congr 1
      simp only [eq_iff_iff]
      omega
    · rw [if_neg (by simp only [depth, itemsDepth]; omega)]
      exact run_no_room h hroom (.inl rfl) _
  | .object [], _, frames, _, _, h, rest => by
    by_cases hroom : frames.length < maxDepth
    · rw [if_pos (by simp only [depth, membersDepth]; omega)]
      change run _ (.beginObject :: .endObject :: rest) = _
      rw [run_cons, step_beginObject h hroom, Option.bind_some]
      rfl
    · rw [if_neg (by simp only [depth, membersDepth]; omega)]
      exact run_no_room h hroom (.inr rfl) _
  | .object ((name, value) :: members), hcanonical, frames, _, _, h, rest => by
    by_cases hroom : frames.length < maxDepth
    · change run _ (.beginObject :: .string name :: .nameSeparator ::
        (value.tokens ++ memberTokens members ++ rest)) = _
      rw [run_cons, step_beginObject h hroom, Option.bind_some, List.append_assoc]
      change run ⟨.object [] name :: frames, .value⟩ _ = _
      rw [run_tokens value hcanonical.2.1 (.object [] name :: frames) hroom .value (.inl rfl),
        run_memberTokens members hcanonical.2.2 frames [] name value hcanonical.1 hroom, ← ite_and]
      simp only [List.length_cons, depth, membersDepth, List.nil_append]
      congr 1
      simp only [eq_iff_iff]
      omega
    · rw [if_neg (by simp only [depth, membersDepth]; omega)]
      exact run_no_room h hroom (.inr rfl) _

theorem run_itemTokens : (items : List Json) → ItemsCanonical items → (frames : List Frame) →
    (before : List Json) → (value : Json) → frames.length < maxDepth → (rest : List Token) →
    run ⟨.array before :: frames, .separator value⟩ (itemTokens items ++ rest) =
      if frames.length + itemsDepth items + 1 ≤ maxDepth then
        run ⟨frames, .separator (.array (before.reverse ++ value :: items))⟩ rest
      else none
  | [], _, frames, before, value, hroom, rest => by
    rw [if_pos (by simp only [itemsDepth]; omega), ← List.reverse_cons]
    rfl
  | item :: items, hcanonical, frames, before, value, hroom, rest => by
    change run _ (.valueSeparator :: (item.tokens ++ itemTokens items ++ rest)) = _
    rw [run_cons, List.append_assoc]
    change run ⟨.array (value :: before) :: frames, .value⟩ _ = _
    rw [run_tokens item hcanonical.1 (.array (value :: before) :: frames) hroom .value (.inl rfl),
      run_itemTokens items hcanonical.2 frames (value :: before) item hroom, ← ite_and]
    simp only [List.length_cons, itemsDepth, List.reverse_cons, List.append_assoc,
      List.singleton_append]
    congr 1
    simp only [eq_iff_iff]
    omega

theorem run_memberTokens : (members : List (String × Json)) → MembersCanonical members →
    (frames : List Frame) → (before : List (String × Json)) → (name : String) → (value : Json) →
    Members.Ascending (before ++ (name, value) :: members) → frames.length < maxDepth →
    (rest : List Token) →
    run ⟨.object before name :: frames, .separator value⟩ (memberTokens members ++ rest) =
      if frames.length + membersDepth members + 1 ≤ maxDepth then
        run ⟨frames, .separator (.object (before ++ (name, value) :: members))⟩ rest
      else none
  | [], _, frames, before, name, value, hasc, hroom, rest => by
    rw [if_pos (by simp only [membersDepth]; omega), ← insert_last hasc]
    rfl
  | (next, item) :: members, hcanonical, frames, before, name, value, hasc, hroom, rest => by
    have hsplit : before ++ (name, value) :: (next, item) :: members =
        before ++ [(name, value)] ++ (next, item) :: members := by
      rw [List.append_assoc, List.singleton_append]
    change run _ (.valueSeparator :: .string next :: .nameSeparator ::
      (item.tokens ++ memberTokens members ++ rest)) = _
    rw [run_cons, List.append_assoc]
    change run ⟨.object (Members.insert name value before) next :: frames, .value⟩ _ = _
    rw [insert_last hasc, hsplit,
      run_tokens item hcanonical.1 (.object _ next :: frames) hroom .value (.inl rfl),
      run_memberTokens members hcanonical.2 frames _ next item (hsplit ▸ hasc) hroom, ← ite_and]
    simp only [List.length_cons, membersDepth]
    congr 1
    simp only [eq_iff_iff]
    omega

end

end Reading

/-- The tokens of a value are read as the value, unless its containers nest too deep. -/
theorem ofTokens?_tokens {value : Json} (h : value.Canonical) :
    ofTokens? value.tokens = if value.depth ≤ maxDepth then some value else none := by
  have hrun := Reading.run_tokens value h [] (Nat.zero_le _) .value (.inl rfl) []
  rw [List.append_nil, List.length_nil, Nat.zero_add] at hrun
  exact hrun

end JsonPatch.Json
