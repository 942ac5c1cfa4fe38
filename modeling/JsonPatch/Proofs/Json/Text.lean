import JsonPatch.Proofs.Json.Reading

namespace JsonPatch.Json

theorem isMark_itemTokens (items : List Json) (rest : List Token) :
    ∀ next ∈ (itemTokens items ++ rest).head?, next.IsMark := by
  cases items with
  | nil =>
    intro next hnext
    cases hnext
    trivial
  | cons item items =>
    intro next hnext
    cases hnext
    trivial

theorem isMark_memberTokens (members : List (String × Json)) (rest : List Token) :
    ∀ next ∈ (memberTokens members ++ rest).head?, next.IsMark := by
  cases members with
  | nil =>
    intro next hnext
    cases hnext
    trivial
  | cons m members =>
    intro next hnext
    cases hnext
    trivial

mutual

theorem spaced_tokens : (value : Json) → (rest : List Token) → Spaced rest →
    (∀ next ∈ rest.head?, next.IsMark) → Spaced (value.tokens ++ rest)
  | .null, _, h, hmark => ⟨.inr hmark, h⟩
  | .bool _, _, h, hmark => ⟨.inr hmark, h⟩
  | .number _, _, h, hmark => ⟨.inr hmark, h⟩
  | .string _, _, h, hmark => ⟨.inr hmark, h⟩
  | .array [], _, h, _ => ⟨.inl trivial, .inl trivial, h⟩
  | .array (item :: items), rest, h, _ => by
    refine ⟨.inl trivial, ?_⟩
    change Spaced (item.tokens ++ itemTokens items ++ rest)
    rw [List.append_assoc]
    exact spaced_tokens item _ (spaced_itemTokens items rest h) (isMark_itemTokens items rest)
  | .object [], _, h, _ => ⟨.inl trivial, .inl trivial, h⟩
  | .object ((_, value) :: members), rest, h, _ => by
    refine ⟨.inl trivial, .inl trivial, .inl trivial, ?_⟩
    change Spaced (value.tokens ++ memberTokens members ++ rest)
    rw [List.append_assoc]
    exact spaced_tokens value _ (spaced_memberTokens members rest h)
      (isMark_memberTokens members rest)

theorem spaced_itemTokens : (items : List Json) → (rest : List Token) → Spaced rest →
    Spaced (itemTokens items ++ rest)
  | [], _, h => ⟨.inl trivial, h⟩
  | item :: items, rest, h => by
    refine ⟨.inl trivial, ?_⟩
    change Spaced (item.tokens ++ itemTokens items ++ rest)
    rw [List.append_assoc]
    exact spaced_tokens item _ (spaced_itemTokens items rest h) (isMark_itemTokens items rest)

theorem spaced_memberTokens : (members : List (String × Json)) → (rest : List Token) →
    Spaced rest → Spaced (memberTokens members ++ rest)
  | [], _, h => ⟨.inl trivial, h⟩
  | (_, value) :: members, rest, h => by
    refine ⟨.inl trivial, .inl trivial, .inl trivial, ?_⟩
    change Spaced (value.tokens ++ memberTokens members ++ rest)
    rw [List.append_assoc]
    exact spaced_tokens value _ (spaced_memberTokens members rest h)
      (isMark_memberTokens members rest)

end

mutual

theorem canonical_tokens : (value : Json) → value.Canonical →
    ∀ token ∈ value.tokens, token.Canonical
  | .null, _ => by simp [tokens, Token.Canonical]
  | .bool _, _ => by simp [tokens, Token.Canonical]
  | .number _, h => by
    intro token htoken
    rw [List.mem_singleton.mp htoken]
    exact h
  | .string _, _ => by simp [tokens, Token.Canonical]
  | .array [], _ => by simp [tokens, Token.Canonical]
  | .array (item :: items), h => by
    have hitem := canonical_tokens item h.1
    have hitems := canonical_itemTokens items h.2
    simp only [tokens, List.forall_mem_cons, List.forall_mem_append]
    exact ⟨trivial, hitem, hitems⟩
  | .object [], _ => by simp [tokens, Token.Canonical]
  | .object ((_, value) :: members), h => by
    have hvalue := canonical_tokens value h.2.1
    have hmembers := canonical_memberTokens members h.2.2
    simp only [tokens, List.forall_mem_cons, List.forall_mem_append]
    exact ⟨trivial, trivial, trivial, hvalue, hmembers⟩

theorem canonical_itemTokens : (items : List Json) → ItemsCanonical items →
    ∀ token ∈ itemTokens items, token.Canonical
  | [], _ => by simp [itemTokens, Token.Canonical]
  | item :: items, h => by
    have hitem := canonical_tokens item h.1
    have hitems := canonical_itemTokens items h.2
    simp only [itemTokens, List.forall_mem_cons, List.forall_mem_append]
    exact ⟨trivial, hitem, hitems⟩

theorem canonical_memberTokens : (members : List (String × Json)) → MembersCanonical members →
    ∀ token ∈ memberTokens members, token.Canonical
  | [], _ => by simp [memberTokens, Token.Canonical]
  | (_, value) :: members, h => by
    have hvalue := canonical_tokens value h.1
    have hmembers := canonical_memberTokens members h.2
    simp only [memberTokens, List.forall_mem_cons, List.forall_mem_append]
    exact ⟨trivial, trivial, trivial, hvalue, hmembers⟩

end

mutual

/-- The value with each number read from its text, if all of them can be read. -/
def reread? : Json → Option Json
  | .number n => (Numeral.read? (n.text "e+").toList).map .number
  | .array items => (rereadItems? items).map .array
  | .object members => (rereadMembers? members).map .object
  | value => some value

/-- `reread?` for the elements of an array. -/
def rereadItems? : List Json → Option (List Json)
  | [] => some []
  | item :: items => do
    let item ← reread? item
    some (item :: (← rereadItems? items))

/-- `reread?` for the values of an object. -/
def rereadMembers? : List (String × Json) → Option (List (String × Json))
  | [] => some []
  | (name, value) :: members => do
    let value ← reread? value
    some ((name, value) :: (← rereadMembers? members))

end

mutual

theorem mapM_tokens : (value : Json) →
    value.tokens.mapM Token.reread? = value.reread?.map tokens
  | .null => rfl
  | .bool _ => rfl
  | .number n => by
    simp only [tokens, List.mapM_cons, List.mapM_nil, Token.reread?, reread?]
    cases Numeral.read? (n.text "e+").toList <;> rfl
  | .string _ => rfl
  | .array [] => rfl
  | .array (item :: items) => by
    have hitem := mapM_tokens item
    have hitems := mapM_itemTokens items
    simp only [tokens, List.mapM_cons, List.mapM_append, hitem, hitems, Token.reread?, reread?,
      rereadItems?]
    cases item.reread? with
    | none => rfl
    | some item => cases rereadItems? items <;> rfl
  | .object [] => rfl
  | .object ((name, value) :: members) => by
    have hvalue := mapM_tokens value
    have hmembers := mapM_memberTokens members
    simp only [tokens, List.mapM_cons, List.mapM_append, hvalue, hmembers, Token.reread?, reread?,
      rereadMembers?]
    cases value.reread? with
    | none => rfl
    | some value => cases rereadMembers? members <;> rfl

theorem mapM_itemTokens : (items : List Json) →
    (itemTokens items).mapM Token.reread? = (rereadItems? items).map itemTokens
  | [] => rfl
  | item :: items => by
    have hitem := mapM_tokens item
    have hitems := mapM_itemTokens items
    simp only [itemTokens, List.mapM_cons, List.mapM_append, hitem, hitems, Token.reread?,
      rereadItems?]
    cases item.reread? with
    | none => rfl
    | some item => cases rereadItems? items <;> rfl

theorem mapM_memberTokens : (members : List (String × Json)) →
    (memberTokens members).mapM Token.reread? = (rereadMembers? members).map memberTokens
  | [] => rfl
  | (name, value) :: members => by
    have hvalue := mapM_tokens value
    have hmembers := mapM_memberTokens members
    simp only [memberTokens, List.mapM_cons, List.mapM_append, hvalue, hmembers, Token.reread?,
      rereadMembers?]
    cases value.reread? with
    | none => rfl
    | some value => cases rereadMembers? members <;> rfl

end

mutual

theorem canonical_reread? : (value : Json) → value.Canonical → {again : Json} →
    value.reread? = some again → again.Canonical ∧ again.depth = value.depth
  | .null, h, _, heq => by
    cases heq
    exact ⟨h, rfl⟩
  | .bool _, h, _, heq => by
    cases heq
    exact ⟨h, rfl⟩
  | .number _, _, _, heq => by
    obtain ⟨n, hn, rfl⟩ := Option.map_eq_some_iff.mp heq
    exact ⟨Numeral.canonical_of_read? hn, rfl⟩
  | .string _, h, _, heq => by
    cases heq
    exact ⟨h, rfl⟩
  | .array items, h, _, heq => by
    obtain ⟨again, hagain, rfl⟩ := Option.map_eq_some_iff.mp heq
    obtain ⟨hcanonical, hdepth⟩ := canonical_rereadItems? items h hagain
    exact ⟨hcanonical, by rw [depth, depth, hdepth]⟩
  | .object members, h, _, heq => by
    obtain ⟨again, hagain, rfl⟩ := Option.map_eq_some_iff.mp heq
    obtain ⟨hcanonical, hdepth, hnames⟩ := canonical_rereadMembers? members h.2 hagain
    exact ⟨⟨Members.ascending_of_names hnames h.1, hcanonical⟩, by rw [depth, depth, hdepth]⟩

theorem canonical_rereadItems? : (items : List Json) → ItemsCanonical items →
    {again : List Json} → rereadItems? items = some again →
    ItemsCanonical again ∧ itemsDepth again = itemsDepth items
  | [], h, _, heq => by
    cases heq
    exact ⟨h, rfl⟩
  | item :: items, h, _, heq => by
    obtain ⟨first, hfirst, hrest⟩ := Option.bind_eq_some_iff.mp heq
    obtain ⟨again, hagain, hcons⟩ := Option.bind_eq_some_iff.mp hrest
    cases hcons
    obtain ⟨hitem, hdepth⟩ := canonical_reread? item h.1 hfirst
    obtain ⟨hitems, hdepths⟩ := canonical_rereadItems? items h.2 hagain
    exact ⟨⟨hitem, hitems⟩, by rw [itemsDepth, itemsDepth, hdepth, hdepths]⟩

theorem canonical_rereadMembers? : (members : List (String × Json)) → MembersCanonical members →
    {again : List (String × Json)} → rereadMembers? members = some again →
    MembersCanonical again ∧ membersDepth again = membersDepth members ∧
      again.map Prod.fst = members.map Prod.fst
  | [], h, _, heq => by
    cases heq
    exact ⟨h, rfl, rfl⟩
  | (name, value) :: members, h, _, heq => by
    obtain ⟨first, hfirst, hrest⟩ := Option.bind_eq_some_iff.mp heq
    obtain ⟨again, hagain, hcons⟩ := Option.bind_eq_some_iff.mp hrest
    cases hcons
    obtain ⟨hvalue, hdepth⟩ := canonical_reread? value h.1 hfirst
    obtain ⟨hmembers, hdepths, hnames⟩ := canonical_rereadMembers? members h.2 hagain
    refine ⟨⟨hvalue, hmembers⟩, ?_, ?_⟩
    · rw [membersDepth, membersDepth, hdepth, hdepths]
    · rw [List.map_cons, List.map_cons, hnames]

end

/-- The text of a value is read as the value, each number read from its text, unless containers nest
too deep. -/
theorem read?_compact {value : Json} (h : value.Canonical) :
    read? value.compact = if value.depth ≤ maxDepth then value.reread? else none := by
  have hspaced : Spaced value.tokens := by
    have hspaced := spaced_tokens value [] trivial (by simp)
    rwa [List.append_nil] at hspaced
  rw [read?, compact, String.toList_ofList, tokenize_text hspaced (canonical_tokens value h),
    mapM_tokens]
  cases hagain : value.reread? with
  | none => simp
  | some again =>
    obtain ⟨hcanonical, hdepth⟩ := canonical_reread? value h hagain
    rw [Option.map_some, Option.bind_some, ofTokens?_tokens hcanonical, hdepth]

end JsonPatch.Json
