import JsonPatch.Proofs.Pointer.Codec

namespace JsonPatch.Pointer

/-- There is one segment more than there are slashes. -/
theorem length_segments (text : List Char) : (segments text).length = text.count '/' + 1 := by
  induction text with
  | nil => rfl
  | cons c text ih =>
    by_cases hc : c = '/'
    · rw [hc, segments, if_pos rfl, List.length_cons, ih, List.count_cons_self]
    · obtain ⟨part, parts, htext, hcons⟩ := segments_cons_of_ne hc text
      rw [hcons, List.count_cons_of_ne hc, ← ih, htext, List.length_cons, List.length_cons]

/-- What stands before the first slash, or is all of a text without slashes, is its first segment. -/
theorem head?_segments {part back : List Char} (hpart : '/' ∉ part)
    (hback : back = [] ∨ ['/'] <+: back) : (segments (part ++ back)).head? = some part := by
  rcases hback with rfl | ⟨rest, rfl⟩
  · rw [List.append_nil, segments_of_not_mem hpart]
    rfl
  · rw [List.singleton_append, segments_append, segments_of_not_mem hpart]
    rfl

/-- A segment is numbered by the slashes before the one that it stands behind. -/
theorem getElem?_segments {body front part back : List Char}
    (hbody : '/' :: body = front ++ '/' :: (part ++ back)) (hpart : '/' ∉ part)
    (hback : back = [] ∨ ['/'] <+: back) : (segments body)[front.count '/']? = some part := by
  have hhead := head?_segments hpart hback
  cases front with
  | nil =>
    obtain rfl : body = part ++ back := (List.cons.inj hbody).2
    rwa [List.count_nil, ← List.head?_eq_getElem?]
  | cons c front =>
    rw [List.cons_append] at hbody
    obtain ⟨rfl, rfl⟩ := List.cons.inj hbody
    rw [segments_append, List.count_cons_self, ← length_segments, List.getElem?_append_right
      (Nat.le_refl _), Nat.sub_self, ← List.head?_eq_getElem?, hhead]

/-- Every segment stands behind a slash, and before the next one or at the end. -/
theorem exists_of_mem_segments {body part : List Char} (h : part ∈ segments body) :
    ∃ front back, '/' :: body = front ++ '/' :: (part ++ back) ∧
      (back = [] ∨ ['/'] <+: back) := by
  obtain ⟨before, behind, hsegments⟩ := List.append_of_mem h
  refine ⟨before.flatMap fun part => '/' :: part, behind.flatMap fun part => '/' :: part, ?_, ?_⟩
  · rw [← joined_segments body, hsegments, List.flatMap_append, List.flatMap_cons,
      List.cons_append]
  · cases behind with
    | nil => exact .inl rfl
    | cons next behind => exact .inr ⟨next ++ behind.flatMap fun part => '/' :: part, rfl⟩

/-- A segment is empty exactly where a slash ends the text or another one follows it. -/
theorem nil_mem_segments_iff (body : List Char) :
    [] ∈ segments body ↔ ['/'] <:+ '/' :: body ∨ ['/', '/'] <:+: '/' :: body := by
  constructor
  · intro h
    obtain ⟨front, back, hbody, rfl | ⟨rest, rfl⟩⟩ := exists_of_mem_segments h
    · exact .inl ⟨front, hbody.symm⟩
    · refine .inr ⟨front, rest, ?_⟩
      rw [hbody, List.append_assoc]
      rfl
  · have hmem {front back : List Char} (hbody : '/' :: body = front ++ '/' :: ([] ++ back))
        (hback : back = [] ∨ ['/'] <+: back) : [] ∈ segments body :=
      List.mem_of_getElem? (getElem?_segments hbody List.not_mem_nil hback)
    rintro (⟨front, hbody⟩ | ⟨front, rest, hbody⟩)
    · exact hmem hbody.symm (.inl rfl)
    · rw [List.append_assoc] at hbody
      exact hmem hbody.symm (.inr ⟨rest, rfl⟩)

theorem singleton_prefix_iff (c : Char) (text : List Char) :
    [c] <+: text ↔ ∃ rest, text = c :: rest := by
  constructor
  · rintro ⟨rest, rfl⟩
    exact ⟨rest, rfl⟩
  · rintro ⟨rest, rfl⟩
    exact ⟨rest, rfl⟩

/-- The segments of a text behind a slash are all full exactly if no slash ends the text and no two
stand in a row. -/
theorem segments_full_iff (body : List Char) :
    (∀ part ∈ segments body, part ≠ []) ↔
      ¬['/'] <:+ '/' :: body ∧ ¬['/', '/'] <:+: '/' :: body := by
  rw [← not_or, ← nil_mem_segments_iff]
  constructor
  · intro hfull hnil
    exact hfull [] hnil rfl
  · rintro hnil part hpart rfl
    exact hnil hpart

theorem exists_parse_iff (raw : String) :
    (∃ p, parse raw = .ok p) ↔ raw = "" ∨
      ['/'] <+: raw.toList ∧ ¬['/'] <:+ raw.toList ∧ ¬['/', '/'] <:+: raw.toList := by
  simp only [parse_eq_ok_iff, singleton_prefix_iff]
  constructor
  · rintro ⟨p, ⟨hempty, -⟩ | ⟨body, hraw, hfull, -⟩⟩
    · exact .inl hempty
    · rw [segments_full_iff, ← hraw] at hfull
      exact .inr ⟨⟨body, hraw⟩, hfull⟩
  · rintro (hempty | ⟨⟨body, hraw⟩, hfull⟩)
    · exact ⟨root, .inl ⟨hempty, rfl⟩⟩
    · rw [hraw, ← segments_full_iff] at hfull
      exact ⟨_, .inr ⟨body, hraw, hfull, rfl⟩⟩

/-- A fault is a first character other than a slash, before it is an empty segment. -/
theorem parse_eq_error_iff (raw : String) (e : PointerError) :
    parse raw = .error e ↔
      (raw ≠ "" ∧ ¬['/'] <+: raw.toList ∧ e = .missingDelimiter raw) ∨
      (['/'] <+: raw.toList ∧ (['/'] <:+ raw.toList ∨ ['/', '/'] <:+: raw.toList) ∧
        e = .emptyReferenceToken raw) := by
  simp only [singleton_prefix_iff]
  unfold parse
  cases hraw : raw.toList with
  | nil => simp [String.toList_eq_nil_iff.mp hraw]
  | cons c body =>
    have hne : raw ≠ "" := by
      rintro rfl
      cases hraw
    by_cases hc : c = '/'
    · subst hc
      have hany : (segments body).any List.isEmpty = true ↔
          ['/'] <:+ '/' :: body ∨ ['/', '/'] <:+: '/' :: body := by
        rw [← nil_mem_segments_iff, List.any_eq_true]
        simp
      by_cases hempty : (segments body).any List.isEmpty = true
      · simp [hempty, hany.mp hempty, eq_comm]
      · simp [hempty, (not_congr hany).mp hempty]
    · simp [hc, hne, eq_comm]

/-- The tokens of a pointer are spelled in its text, each behind a slash of its own. -/
theorem tokens_of_parse {raw : String} {p : Pointer} (h : parse raw = .ok p) :
    p.tokens.length = raw.toList.count '/' ∧
    ∀ front part back, raw.toList = front ++ '/' :: (part ++ back) → '/' ∉ part →
      (back = [] ∨ ['/'] <+: back) →
      p.tokens[front.count '/']? = some (String.ofList (unescapeChars part)) := by
  rcases (parse_eq_ok_iff raw p).mp h with ⟨rfl, rfl⟩ | ⟨body, hraw, -, rfl⟩
  · refine ⟨rfl, ?_⟩
    intro front part back hsplit
    simp at hsplit
  · rw [hraw]
    constructor
    · rw [List.length_map, length_segments, List.count_cons_self]
    · intro front part back hsplit hpart hback
      rw [List.getElem?_map, getElem?_segments hsplit hpart hback]
      rfl

/-- A text reads as a pointer exactly if it is empty, or begins with a slash, does not end with one
and holds no two in a row. Each slash begins the token that the text behind it spells. -/
theorem parse_reads_grammar (raw : String) :
    ((∃ p, parse raw = .ok p) ↔ raw = "" ∨
      ['/'] <+: raw.toList ∧ ¬['/'] <:+ raw.toList ∧ ¬['/', '/'] <:+: raw.toList) ∧
    (∀ p, parse raw = .ok p → p.raw = raw ∧ p.tokens.length = raw.toList.count '/' ∧
      ∀ front part back, raw.toList = front ++ '/' :: (part ++ back) → '/' ∉ part →
        (back = [] ∨ ['/'] <+: back) →
        ∃ token, p.tokens[front.count '/']? = some token ∧
          (∀ text, Spells part text ↔ text = token.toList) ∧
          unescape (String.ofList part) = token) ∧
    ∀ e, parse raw = .error e ↔
      (raw ≠ "" ∧ ¬['/'] <+: raw.toList ∧ e = .missingDelimiter raw) ∨
      (['/'] <+: raw.toList ∧ (['/'] <:+ raw.toList ∨ ['/', '/'] <:+: raw.toList) ∧
        e = .emptyReferenceToken raw) := by
  refine ⟨exists_parse_iff raw, ?_, parse_eq_error_iff raw⟩
  intro p hparse
  obtain ⟨hlength, htokens⟩ := tokens_of_parse hparse
  refine ⟨raw_of_parse hparse, hlength, ?_⟩
  intro front part back hsplit hpart hback
  refine ⟨_, htokens front part back hsplit hpart hback, ?_, ?_⟩
  · intro text
    rw [String.toList_ofList, ← unescapeChars_eq_iff]
    exact eq_comm
  · rw [unescape_eq, String.toList_ofList]

/-- The second token holds a slash that an escape stands for, and a tilde that begins no escape. -/
theorem parse_reads_grammar_of_escaped_slash :
    parse "/~01/a~1~" = .ok ⟨"/~01/a~1~", ["~1", "a/~"]⟩ ∧
      ["~1", "a/~"].length = "/~01/a~1~".toList.count '/' ∧
      (∃ token, ["~1", "a/~"]["/~01".toList.count '/']? = some token ∧
        (∀ text, Spells "a~1~".toList text ↔ text = token.toList) ∧ unescape "a~1~" = token) ∧
      parse "a//" = .error (.missingDelimiter "a//") ∧
      parse "/a//b" = .error (.emptyReferenceToken "/a//b") := by
  have hparse : parse "/~01/a~1~" = .ok ⟨"/~01/a~1~", ["~1", "a/~"]⟩ := rfl
  obtain ⟨-, hlength, htokens⟩ := (parse_reads_grammar "/~01/a~1~").2.1 _ hparse
  refine ⟨hparse, hlength, ?_, ?_, ?_⟩
  · exact htokens "/~01".toList "a~1~".toList [] rfl (by decide) (.inl rfl)
  · exact ((parse_reads_grammar "a//").2.2 _).mpr (.inl ⟨by decide, by decide, rfl⟩)
  · exact ((parse_reads_grammar "/a//b").2.2 _).mpr (.inr ⟨by decide, .inr (by decide), rfl⟩)

end JsonPatch.Pointer
