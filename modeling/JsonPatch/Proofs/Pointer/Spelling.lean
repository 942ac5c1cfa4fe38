import JsonPatch.Pointer.Wire

namespace JsonPatch.Pointer

theorem escapeChars_cons (c : Char) (cs : List Char) :
    escapeChars (c :: cs) = (escapeTilde c).flatMap escapeSlash ++ escapeChars cs := by
  simp only [escapeChars, List.flatMap_cons, List.flatMap_append]

theorem escapeChars_cons_plain {c : Char} (htilde : c ≠ '~') (hslash : c ≠ '/')
    (cs : List Char) : escapeChars (c :: cs) = c :: escapeChars cs := by
  rw [escapeChars_cons, escapeTilde, if_neg htilde]
  simp only [List.flatMap_cons, List.flatMap_nil, escapeSlash, if_neg hslash]
  rfl

theorem unescapeChars_cons {c : Char} (h : c ≠ '~') (cs : List Char) :
    unescapeChars (c :: cs) = c :: unescapeChars cs := by
  rw [unescapeChars]
  · exact fun _ hc => absurd hc h
  · exact fun _ hc => absurd hc h

theorem unescapeChars_escapeChars (cs : List Char) : unescapeChars (escapeChars cs) = cs := by
  induction cs with
  | nil => rfl
  | cons c cs ih =>
    by_cases htilde : c = '~'
    · subst htilde
      change '~' :: unescapeChars (escapeChars cs) = '~' :: cs
      rw [ih]
    · by_cases hslash : c = '/'
      · subst hslash
        change '/' :: unescapeChars (escapeChars cs) = '/' :: cs
        rw [ih]
      · rw [escapeChars_cons_plain htilde hslash, unescapeChars_cons htilde, ih]

theorem slash_not_mem_escapeChars (cs : List Char) : '/' ∉ escapeChars cs := by
  intro h
  obtain ⟨c, -, hc⟩ := List.mem_flatMap.mp h
  unfold escapeSlash at hc
  split at hc
  · simp at hc
  · rename_i hne
    exact hne (List.mem_singleton.mp hc).symm

theorem escapeChars_ne_nil {cs : List Char} (h : cs ≠ []) : escapeChars cs ≠ [] := by
  intro hnil
  have hback := unescapeChars_escapeChars cs
  rw [hnil] at hback
  exact h hback.symm

theorem unescapeChars_ne_nil {cs : List Char} (h : cs ≠ []) : unescapeChars cs ≠ [] := by
  cases cs with
  | nil => exact absurd rfl h
  | cons c cs =>
    unfold unescapeChars
    split <;> simp_all

theorem segments_of_not_mem {cs : List Char} (h : '/' ∉ cs) : segments cs = [cs] := by
  induction cs with
  | nil => rfl
  | cons c cs ih =>
    rw [List.mem_cons, not_or] at h
    rw [segments, if_neg (Ne.symm h.1), ih h.2]

/-- A character other than a slash joins the first segment of what is behind it. -/
theorem segments_cons_of_ne {c : Char} (h : c ≠ '/') (text : List Char) :
    ∃ part parts, segments text = part :: parts ∧ segments (c :: text) = (c :: part) :: parts := by
  rw [segments, if_neg h]
  cases hsegments : segments text with
  | nil =>
    cases text with
    | nil => cases hsegments
    | cons d text =>
      rw [segments] at hsegments
      split at hsegments
      · cases hsegments
      · split at hsegments <;> cases hsegments
  | cons part parts => exact ⟨part, parts, rfl, rfl⟩

/-- A slash ends a segment, wherever it stands. -/
theorem segments_append (front back : List Char) :
    segments (front ++ '/' :: back) = segments front ++ segments back := by
  induction front with
  | nil => rfl
  | cons c front ih =>
    by_cases hc : c = '/'
    · rw [hc, List.cons_append, segments, if_pos rfl, ih, segments, if_pos rfl, List.cons_append]
    · obtain ⟨part, parts, hfront, hcons⟩ := segments_cons_of_ne hc front
      obtain ⟨part', parts', hwhole, hcons'⟩ := segments_cons_of_ne hc (front ++ '/' :: back)
      rw [ih, hfront, List.cons_append] at hwhole
      obtain ⟨rfl, rfl⟩ := List.cons.inj hwhole
      rw [List.cons_append, hcons', hcons, List.cons_append]

/-- Texts without slashes are the segments of what they make, each but the first behind a slash. -/
theorem segments_joined (part : List Char) (parts : List (List Char))
    (h : ∀ cs ∈ part :: parts, '/' ∉ cs) :
    segments (part ++ parts.flatMap fun cs => '/' :: cs) = part :: parts := by
  induction parts generalizing part with
  | nil =>
    rw [List.flatMap_nil, List.append_nil]
    exact segments_of_not_mem (h part List.mem_cons_self)
  | cons next parts ih =>
    have htail : ∀ cs ∈ next :: parts, '/' ∉ cs := fun cs hcs => h cs (List.mem_cons_of_mem _ hcs)
    rw [List.flatMap_cons, List.cons_append, segments_append,
      segments_of_not_mem (h part List.mem_cons_self), ih next htail, List.singleton_append]

/-- The segments of a spelled text are the escaped tokens. -/
theorem segments_escaped (token : String) (tokens : List String) :
    segments (escapeChars token.toList ++
      tokens.flatMap fun t => '/' :: escapeChars t.toList) =
      (token :: tokens).map fun t => escapeChars t.toList := by
  have hjoined := segments_joined (escapeChars token.toList)
    (tokens.map fun t => escapeChars t.toList) (by
      intro cs hcs
      rw [← List.map_cons (f := fun t : String => escapeChars t.toList)] at hcs
      obtain ⟨t, -, rfl⟩ := List.mem_map.mp hcs
      exact slash_not_mem_escapeChars t.toList)
  rwa [List.flatMap_map] at hjoined

/-- What a text that reads as a pointer looks like. -/
theorem parse_eq_ok_iff (raw : String) (p : Pointer) :
    parse raw = .ok p ↔
      (raw = "" ∧ p = root) ∨
      ∃ body, raw.toList = '/' :: body ∧ (∀ part ∈ segments body, part ≠ []) ∧
        p = ⟨raw, (segments body).map fun part => String.ofList (unescapeChars part)⟩ := by
  unfold parse
  cases hraw : raw.toList with
  | nil =>
    have hempty : raw = "" := String.toList_eq_nil_iff.mp hraw
    simp [hempty, eq_comm]
  | cons c body =>
    have hne : raw ≠ "" := by
      intro h
      rw [h] at hraw
      cases hraw
    by_cases hc : c = '/'
    · subst hc
      by_cases hany : (segments body).any List.isEmpty = true
      · obtain ⟨part, hmem, hpart⟩ := List.any_eq_true.mp hany
        simp only [hany, if_true, hne, false_and, false_or, reduceCtorEq, false_iff]
        intro h
        obtain ⟨body', hbody, hfull, -⟩ := h
        obtain rfl : body = body' := (List.cons.inj hbody).2
        exact hfull part hmem (List.isEmpty_iff.mp hpart)
      · have hfull : ∀ part ∈ segments body, part ≠ [] := fun part hmem hpart =>
          hany (List.any_eq_true.mpr ⟨part, hmem, List.isEmpty_iff.mpr hpart⟩)
        simp only [hany, hne, false_and, false_or, if_true, Bool.false_eq_true, if_false,
          Except.ok.injEq]
        constructor
        · exact fun h => ⟨body, rfl, hfull, h.symm⟩
        · intro h
          obtain ⟨body', hbody, -, rfl⟩ := h
          obtain rfl : body = body' := (List.cons.inj hbody).2
          rfl
    · simp only [hc, if_false, hne, false_and, false_or, reduceCtorEq, false_iff]
      intro h
      obtain ⟨body', hbody, -⟩ := h
      exact hc (List.cons.inj hbody).1

theorem raw_of_parse {raw : String} {p : Pointer} (h : parse raw = .ok p) : p.raw = raw := by
  rcases (parse_eq_ok_iff raw p).mp h with ⟨rfl, rfl⟩ | ⟨body, -, -, rfl⟩
  · rfl
  · rfl

theorem token_ne_empty_of_parse {raw : String} {p : Pointer} (h : parse raw = .ok p) :
    ∀ token ∈ p.tokens, token ≠ "" := by
  rcases (parse_eq_ok_iff raw p).mp h with ⟨-, rfl⟩ | ⟨body, -, hfull, rfl⟩
  · simp [root]
  · intro token htoken hempty
    obtain ⟨part, hpart, rfl⟩ := List.mem_map.mp htoken
    have hnil : unescapeChars part = [] := by
      rw [← String.toList_ofList (l := unescapeChars part), hempty]
      rfl
    exact unescapeChars_ne_nil (hfull part hpart) hnil

/-- The text spelled from tokens, none of them empty, reads as a pointer with these tokens. -/
theorem parse_encode {tokens : List String} (h : ∀ token ∈ tokens, token ≠ "") :
    parse (encode tokens) = .ok (spell tokens) := by
  rw [parse_eq_ok_iff]
  cases tokens with
  | nil => exact .inl ⟨rfl, rfl⟩
  | cons token tokens =>
    refine .inr ⟨escapeChars token.toList ++ tokens.flatMap fun t => '/' :: escapeChars t.toList,
      ?_, ?_, ?_⟩
    · rw [encode, String.toList_ofList, List.flatMap_cons, List.cons_append]
    · intro part hpart
      rw [segments_escaped] at hpart
      obtain ⟨t, ht, rfl⟩ := List.mem_map.mp hpart
      exact escapeChars_ne_nil fun hnil => h t ht (String.toList_eq_nil_iff.mp hnil)
    · rw [segments_escaped, List.map_map, spell]
      congr 1
      refine (List.map_id'' (fun t => ?_) _).symm
      rw [Function.comp_apply, unescapeChars_escapeChars, String.ofList_toList]

/-- The pointers that the operations on pointers give. -/
inductive Obtainable : Pointer → Prop where
  | root : Obtainable root
  | parse {raw : String} {p : Pointer} : parse raw = .ok p → Obtainable p
  | ofJsonText {text : String} {p : Pointer} : ofJsonText? text = some p → Obtainable p
  | ofTokens {tokens : List String} {p : Pointer} : ofTokens tokens = .ok p → Obtainable p
  | child {p q : Pointer} {token : String} : Obtainable p → p.child token = .ok q → Obtainable q
  | parent {p q : Pointer} : Obtainable p → p.parent? = some q → Obtainable q
  | rest {p q : Pointer} : Obtainable p → p.rest? = some q → Obtainable q

/-- The invariant of pointers: the text reads as the pointer itself. -/
def Spelled (p : Pointer) : Prop := parse p.raw = .ok p

theorem Spelled.token_ne_empty {p : Pointer} (h : p.Spelled) : ∀ token ∈ p.tokens, token ≠ "" :=
  token_ne_empty_of_parse h

theorem spelled_of_parse {raw : String} {p : Pointer} (h : parse raw = .ok p) : p.Spelled := by
  rwa [Spelled, raw_of_parse h]

theorem spelled_spell {tokens : List String} (h : ∀ token ∈ tokens, token ≠ "") :
    (spell tokens).Spelled := parse_encode h

/-- Tokens make a pointer unless one of them is empty. -/
theorem ofTokens_eq_ok_iff (tokens : List String) (p : Pointer) :
    ofTokens tokens = .ok p ↔ (∀ token ∈ tokens, token ≠ "") ∧ p = spell tokens := by
  unfold ofTokens
  by_cases hany : tokens.any String.isEmpty = true
  · obtain ⟨token, htoken, hempty⟩ := List.any_eq_true.mp hany
    rw [if_pos hany]
    constructor
    · intro h
      cases h
    · intro h
      exact absurd (String.isEmpty_iff.mp hempty) (h.1 token htoken)
  · have hfull : ∀ token ∈ tokens, token ≠ "" := fun token htoken hempty =>
      hany (List.any_eq_true.mpr ⟨token, htoken, String.isEmpty_iff.mpr hempty⟩)
    rw [if_neg hany]
    constructor
    · intro h
      cases h
      exact ⟨hfull, rfl⟩
    · intro h
      rw [h.2]

theorem concat_ne_empty {place : List String} (hplace : ∀ token ∈ place, token ≠ "")
    {token : String} (htoken : token ≠ "") : ∀ t ∈ place ++ [token], t ≠ "" := by
  intro t ht
  rcases List.mem_append.mp ht with ht | ht
  · exact hplace t ht
  · rwa [List.mem_singleton.mp ht]

/-- A child of a pointer is spelled afresh, whatever the text of the pointer was. -/
theorem child_eq_ok_iff (p inner : Pointer) (token : String) :
    p.child token = .ok inner ↔
      (∀ t ∈ p.tokens, t ≠ "") ∧ token ≠ "" ∧ inner = spell (p.tokens ++ [token]) := by
  rw [child, ofTokens_eq_ok_iff, List.forall_mem_append, List.forall_mem_singleton, and_assoc]

theorem spelled_of_ofTokens {tokens : List String} {p : Pointer} (h : ofTokens tokens = .ok p) :
    p.Spelled := by
  obtain ⟨hfull, rfl⟩ := (ofTokens_eq_ok_iff tokens p).mp h
  exact spelled_spell hfull

theorem Obtainable.spelled {p : Pointer} (h : p.Obtainable) : p.Spelled := by
  induction h with
  | root => rfl
  | parse h => exact spelled_of_parse h
  | @ofJsonText text p h =>
    unfold ofJsonText? at h
    split at h
    · rename_i raw _
      cases hp : Pointer.parse raw with
      | error e => simp [hp, Except.toOption] at h
      | ok q =>
        obtain rfl : q = p := by simpa [hp, Except.toOption] using h
        exact spelled_of_parse hp
    · cases h
  | ofTokens h => exact spelled_of_ofTokens h
  | child _ h _ => exact spelled_of_ofTokens h
  | parent _ h ih =>
    unfold parent? at h
    split at h
    · cases h
    · cases h
      exact spelled_spell fun token htoken =>
        ih.token_ne_empty token (List.dropLast_subset _ htoken)
  | @rest p _ _ h ih =>
    unfold rest? at h
    split at h
    · cases h
    · rename_i token tokens htokens
      cases h
      refine spelled_spell fun t ht => ih.token_ne_empty t ?_
      rw [htokens]
      exact List.mem_cons_of_mem token ht

end JsonPatch.Pointer
