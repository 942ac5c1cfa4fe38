import JsonPatch.Proofs.Pointer.Spelling

namespace JsonPatch.Pointer

/-- Whether each tilde of a text is followed by a character that makes it an escape. -/
def TildesEscape (cs : List Char) : Prop :=
  ∀ front back, cs = front ++ '~' :: back → back.head? = some '0' ∨ back.head? = some '1'

theorem tildesEscape_nil : TildesEscape [] := by
  intro front back h
  simp at h

theorem tildesEscape_cons (c : Char) (cs : List Char) :
    TildesEscape (c :: cs) ↔
      (c = '~' → cs.head? = some '0' ∨ cs.head? = some '1') ∧ TildesEscape cs := by
  constructor
  · intro h
    refine ⟨?_, ?_⟩
    · intro hc
      exact h [] cs (by rw [hc, List.nil_append])
    · intro front back hcs
      exact h (c :: front) back (by rw [hcs, List.cons_append])
  · intro h front back hsplit
    cases front with
    | nil =>
      obtain ⟨hc, rfl⟩ := List.cons.inj hsplit
      exact h.1 hc
    | cons d front => exact h.2 front back (List.cons.inj hsplit).2

/-- Where the second text does not complete an escape, the tildes of two texts escape each on their
own. -/
theorem tildesEscape_append (cs : List Char) {rest : List Char} (hzero : rest.head? ≠ some '0')
    (hone : rest.head? ≠ some '1') :
    TildesEscape (cs ++ rest) ↔ TildesEscape cs ∧ TildesEscape rest := by
  induction cs with
  | nil =>
    rw [List.nil_append]
    exact ⟨fun h => ⟨tildesEscape_nil, h⟩, fun h => h.2⟩
  | cons c cs ih =>
    have hhead : ((cs ++ rest).head? = some '0' ∨ (cs ++ rest).head? = some '1') ↔
        (cs.head? = some '0' ∨ cs.head? = some '1') := by
      cases cs with
      | nil => simp [hzero, hone]
      | cons d cs => rfl
    rw [List.cons_append, tildesEscape_cons, tildesEscape_cons, hhead, ih, and_assoc]

theorem tildesEscape_joined (parts : List (List Char)) :
    TildesEscape (parts.flatMap fun cs => '/' :: cs) ↔ ∀ cs ∈ parts, TildesEscape cs := by
  induction parts with
  | nil => simp [tildesEscape_nil]
  | cons part parts ih =>
    have hhead : ∀ c, c ≠ '/' → (parts.flatMap fun cs => '/' :: cs).head? ≠ some c := by
      intro c hc
      cases parts with
      | nil => simp
      | cons next parts => simpa using Ne.symm hc
    rw [List.flatMap_cons, List.cons_append, tildesEscape_cons,
      tildesEscape_append part (hhead '0' (by decide)) (hhead '1' (by decide)), ih,
      List.forall_mem_cons]
    simp

/-- A text is the escaped form of what it reads as, if no slash ends it and its tildes all begin
escapes. -/
theorem escapeChars_unescapeChars_eq_iff (cs : List Char) :
    escapeChars (unescapeChars cs) = cs ↔ '/' ∉ cs ∧ TildesEscape cs := by
  induction cs using unescapeChars.induct with
  | case1 cs ih =>
    have hstep : escapeChars (unescapeChars ('~' :: '0' :: cs)) =
        '~' :: '0' :: escapeChars (unescapeChars cs) := rfl
    rw [hstep, List.cons.injEq, List.cons.injEq, ih, tildesEscape_cons, tildesEscape_cons]
    simp
  | case2 cs ih =>
    have hstep : escapeChars (unescapeChars ('~' :: '1' :: cs)) =
        '~' :: '1' :: escapeChars (unescapeChars cs) := rfl
    rw [hstep, List.cons.injEq, List.cons.injEq, ih, tildesEscape_cons, tildesEscape_cons]
    simp
  | case3 c cs hzero hone ih =>
    rw [unescapeChars.eq_3 c cs hzero hone, tildesEscape_cons]
    by_cases htilde : c = '~'
    · -- A tilde that begins no escape is spelled as one.
      have hbare : ¬(cs.head? = some '0' ∨ cs.head? = some '1') := by
        cases cs with
        | nil => simp
        | cons d cs =>
          intro h
          rcases h with hd | hd
          · exact hzero cs htilde (by rw [Option.some.inj hd])
          · exact hone cs htilde (by rw [Option.some.inj hd])
      subst htilde
      have hstep : escapeChars ('~' :: unescapeChars cs) =
          '~' :: '0' :: escapeChars (unescapeChars cs) := rfl
      rw [hstep, List.cons.injEq]
      constructor
      · intro h
        exact absurd (.inl (by rw [← h.2]; rfl)) hbare
      · intro h
        exact absurd (h.2.1 rfl) hbare
    · by_cases hslash : c = '/'
      · subst hslash
        have hstep : escapeChars ('/' :: unescapeChars cs) =
            '~' :: '1' :: escapeChars (unescapeChars cs) := rfl
        rw [hstep]
        simp
      · rw [escapeChars_cons_plain htilde hslash, List.cons.injEq, ih, List.mem_cons, not_or]
        simp [htilde, Ne.symm hslash]
  | case4 =>
    have hnil : escapeChars (unescapeChars []) = [] := rfl
    simp [hnil, tildesEscape_nil]

theorem slash_not_mem_segments (cs : List Char) : ∀ part ∈ segments cs, '/' ∉ part := by
  induction cs with
  | nil => simp [segments]
  | cons c cs ih =>
    by_cases hc : c = '/'
    · rw [hc, segments, if_pos rfl, List.forall_mem_cons]
      exact ⟨List.not_mem_nil, ih⟩
    · obtain ⟨part, parts, hparts, hcons⟩ := segments_cons_of_ne hc cs
      rw [hparts, List.forall_mem_cons] at ih
      rw [hcons, List.forall_mem_cons]
      exact ⟨by simp [Ne.symm hc, ih.1], ih.2⟩

/-- The segments, each behind a slash, are the text behind one. -/
theorem joined_segments (cs : List Char) :
    ((segments cs).flatMap fun part => '/' :: part) = '/' :: cs := by
  induction cs with
  | nil => rfl
  | cons c cs ih =>
    by_cases hc : c = '/'
    · rw [hc, segments, if_pos rfl, List.flatMap_cons, ih]
      rfl
    · obtain ⟨part, parts, hparts, hcons⟩ := segments_cons_of_ne hc cs
      rw [hparts, List.flatMap_cons, List.cons_append] at ih
      rw [hcons, List.flatMap_cons, List.cons_append, List.cons_append, (List.cons.inj ih).2]

/-- Texts that are made of parts without slashes are the same only if the parts are. -/
theorem joined_inj {first second : List (List Char)} (hfirst : ∀ part ∈ first, '/' ∉ part)
    (hsecond : ∀ part ∈ second, '/' ∉ part)
    (h : (first.flatMap fun part => '/' :: part) = second.flatMap fun part => '/' :: part) :
    first = second := by
  cases first with
  | nil =>
    cases second with
    | nil => rfl
    | cons part parts => cases h
  | cons part parts =>
    cases second with
    | nil => cases h
    | cons other others =>
      rw [List.flatMap_cons, List.flatMap_cons] at h
      have htexts := (List.cons.inj h).2
      rw [← segments_joined part parts hfirst, ← segments_joined other others hsecond]
      exact congrArg segments htexts

/-- The tokens of a text are spelled as that text exactly when its tildes all begin escapes. -/
theorem encode_eq_iff {raw : String} {p : Pointer} (h : parse raw = .ok p) :
    encode p.tokens = raw ↔ TildesEscape raw.toList := by
  rcases (parse_eq_ok_iff raw p).mp h with ⟨rfl, rfl⟩ | ⟨body, hraw, -, rfl⟩
  · exact ⟨fun _ => tildesEscape_nil, fun _ => rfl⟩
  · let respelled := (segments body).map fun part => escapeChars (unescapeChars part)
    have hrespelled : ∀ part ∈ respelled, '/' ∉ part := by
      intro part hpart
      obtain ⟨old, -, rfl⟩ := List.mem_map.mp hpart
      exact slash_not_mem_escapeChars _
    have hencode : (encode ((segments body).map fun part =>
        String.ofList (unescapeChars part))).toList = respelled.flatMap fun part => '/' :: part := by
      simp only [encode, respelled, String.toList_ofList, List.flatMap_map]
    have hfixed : respelled = segments body ↔ ∀ part ∈ segments body, TildesEscape part := by
      rw [← List.map_id (segments body), List.map_inj_left, List.map_id]
      refine forall₂_congr fun part hpart => ?_
      rw [id, escapeChars_unescapeChars_eq_iff]
      exact and_iff_right (slash_not_mem_segments body part hpart)
    rw [← String.toList_inj, hencode, hraw, ← joined_segments body, tildesEscape_joined, ← hfixed]
    constructor
    · exact joined_inj hrespelled (slash_not_mem_segments body)
    · intro hsame
      rw [hsame]

/-- The text of a pointer reads as the pointer, and is what its tokens are spelled as exactly if
each of its tildes begins an escape. -/
theorem obtainable_spellings :
    (∀ p : Pointer, p.Obtainable → (∀ token ∈ p.tokens, token ≠ "") ∧ parse p.raw = .ok p) ∧
    (∀ raw p, parse raw = .ok p → ∃ respelled, ofTokens p.tokens = .ok respelled ∧
      (respelled.raw = raw ↔ TildesEscape raw.toList) ∧
      parse respelled.raw = .ok respelled ∧ respelled.tokens = p.tokens) ∧
    (∀ tokens, (∃ p, ofTokens tokens = .ok p) ↔ ∀ token ∈ tokens, token ≠ "") := by
  refine ⟨?_, ?_, ?_⟩
  · intro p hp
    exact ⟨hp.spelled.token_ne_empty, hp.spelled⟩
  · intro raw p hparse
    have hfull := token_ne_empty_of_parse hparse
    exact ⟨spell p.tokens, (ofTokens_eq_ok_iff _ _).mpr ⟨hfull, rfl⟩, encode_eq_iff hparse,
      parse_encode hfull, rfl⟩
  · intro tokens
    constructor
    · intro h
      obtain ⟨p, hp⟩ := h
      exact ((ofTokens_eq_ok_iff tokens p).mp hp).1
    · intro hfull
      exact ⟨spell tokens, (ofTokens_eq_ok_iff _ _).mpr ⟨hfull, rfl⟩⟩

/-- A text with a tilde that begins no escape, beside one that does. -/
theorem obtainable_spellings_of_bare_tilde :
    parse "/a~2/~01" = .ok ⟨"/a~2/~01", ["a~2", "~1"]⟩ ∧
      ∃ respelled, ofTokens ["a~2", "~1"] = .ok respelled ∧ respelled.raw ≠ "/a~2/~01" ∧
        parse respelled.raw = .ok respelled ∧ respelled.tokens = ["a~2", "~1"] := by
  have hparse : parse "/a~2/~01" = .ok ⟨"/a~2/~01", ["a~2", "~1"]⟩ := rfl
  obtain ⟨respelled, hspelled, hraw, hagain, htokens⟩ := obtainable_spellings.2.1 _ _ hparse
  have hbare : ¬TildesEscape "/a~2/~01".toList := by
    intro h
    have hnext := h ['/', 'a'] ['2', '/', '~', '0', '1'] rfl
    simp at hnext
  refine ⟨hparse, respelled, hspelled, ?_, hagain, htokens⟩
  intro hsame
  exact hbare (hraw.mp hsame)

end JsonPatch.Pointer
