import JsonPatch.Proofs.Pointer.Respelling

namespace JsonPatch.Pointer

/-- The spelling of one character. -/
def escapeChar (c : Char) : List Char :=
  if c = '~' then ['~', '0'] else if c = '/' then ['~', '1'] else [c]

/-- The second pass finds no slash in what the first one wrote, and keeps its tildes. -/
theorem escapeChars_eq_flatMap (token : List Char) :
    escapeChars token = token.flatMap escapeChar := by
  rw [escapeChars, List.flatMap_assoc]
  congr 1
  funext c
  by_cases htilde : c = '~'
  · rw [htilde]
    rfl
  · rw [escapeTilde, if_neg htilde, escapeChar, if_neg htilde, List.flatMap_singleton, escapeSlash]

theorem escapeChars_of_plain {token : List Char} (h : ∀ c ∈ token, c ≠ '~' ∧ c ≠ '/') :
    escapeChars token = token := by
  induction token with
  | nil => rfl
  | cons c token ih =>
    obtain ⟨⟨htilde, hslash⟩, hrest⟩ := List.forall_mem_cons.mp h
    rw [escapeChars_cons_plain htilde hslash, ih hrest]

theorem unescapeChars_of_not_mem {spelling : List Char} (h : '~' ∉ spelling) :
    unescapeChars spelling = spelling := by
  induction spelling with
  | nil => rfl
  | cons c spelling ih =>
    rw [List.mem_cons, not_or] at h
    rw [unescapeChars_cons (Ne.symm h.1), ih h.2]

/-- A token that is left as it is has nothing to escape. -/
theorem escape_eq (token : String) : escape token = String.ofList (escapeChars token.toList) := by
  unfold escape
  split
  · rfl
  · rename_i hnone
    have hplain : ∀ c ∈ token.toList, c ≠ '~' ∧ c ≠ '/' := by simpa using hnone
    rw [escapeChars_of_plain hplain, String.ofList_toList]

/-- A text that is left as it is has no escapes. -/
theorem unescape_eq (spelling : String) :
    unescape spelling = String.ofList (unescapeChars spelling.toList) := by
  unfold unescape
  split
  · rfl
  · rename_i hnone
    have habsent : '~' ∉ spelling.toList := by simpa using hnone
    rw [unescapeChars_of_not_mem habsent, String.ofList_toList]

theorem unescape_escape (token : String) : unescape (escape token) = token := by
  rw [escape_eq, unescape_eq, String.toList_ofList, unescapeChars_escapeChars,
    String.ofList_toList]

theorem escape_unescape_eq_iff (text : String) :
    escape (unescape text) = text ↔ '/' ∉ text.toList ∧ TildesEscape text.toList := by
  rw [escape_eq, unescape_eq, String.toList_ofList, ← escapeChars_unescapeChars_eq_iff,
    ← String.toList_inj, String.toList_ofList]

/-- A spelling is one, since it is the spelling of what it reads as. -/
theorem isSpelling_escape (token : String) :
    '/' ∉ (escape token).toList ∧ TildesEscape (escape token).toList := by
  rw [← escape_unescape_eq_iff, unescape_escape]

/-- A token is read from its spelling, and the spellings are the texts without slashes in which each
tilde begins an escape. -/
theorem spellings_of_tokens :
    (∀ token, unescape (escape token) = token ∧ '/' ∉ (escape token).toList ∧
      TildesEscape (escape token).toList ∧
      escape token = String.ofList (token.toList.flatMap escapeChar)) ∧
    (∀ text, escape (unescape text) = text ↔ '/' ∉ text.toList ∧ TildesEscape text.toList) ∧
    Function.Injective escape ∧
    ∀ text, (∃ token, escape token = text) ↔ '/' ∉ text.toList ∧ TildesEscape text.toList := by
  refine ⟨?_, escape_unescape_eq_iff, ?_, ?_⟩
  · intro token
    obtain ⟨hslash, htildes⟩ := isSpelling_escape token
    refine ⟨unescape_escape token, hslash, htildes, ?_⟩
    rw [escape_eq, escapeChars_eq_flatMap]
  · exact Function.LeftInverse.injective unescape_escape
  · intro text
    constructor
    · rintro ⟨token, rfl⟩
      exact isSpelling_escape token
    · intro h
      exact ⟨unescape text, (escape_unescape_eq_iff text).mpr h⟩

example : escape "~01/" = "~001~1" ∧ unescape "~01~2~" = "~1~2~" := by decide

/-- A text spells a token if it is escapes and characters that stand for themselves. A tilde stands
for itself only where it begins no escape. -/
inductive Spells : List Char → List Char → Prop where
  | nil : Spells [] []
  | tilde {text token : List Char} : Spells text token → Spells ('~' :: '0' :: text) ('~' :: token)
  | slash {text token : List Char} : Spells text token → Spells ('~' :: '1' :: text) ('/' :: token)
  | kept {c : Char} {text token : List Char}
      (bare : c = '~' → text.head? ≠ some '0' ∧ text.head? ≠ some '1') :
      Spells text token → Spells (c :: text) (c :: token)

/-- By the cases of the scan, which looks one character ahead. -/
theorem spells_unescapeChars (text : List Char) : Spells text (unescapeChars text) := by
  induction text using unescapeChars.induct with
  | case1 text ih => exact .tilde ih
  | case2 text ih => exact .slash ih
  | case3 c text hzero hone ih =>
    rw [unescapeChars.eq_3 c text hzero hone]
    refine .kept (fun htilde => ⟨?_, ?_⟩) ih
    · intro hhead
      obtain ⟨rest, rfl⟩ := List.head?_eq_some_iff.mp hhead
      exact hzero rest htilde rfl
    · intro hhead
      obtain ⟨rest, rfl⟩ := List.head?_eq_some_iff.mp hhead
      exact hone rest htilde rfl
  | case4 => exact .nil

/-- A text spells one token, the one that it reads as. -/
theorem unescapeChars_eq_iff (text token : List Char) :
    unescapeChars text = token ↔ Spells text token := by
  constructor
  · rintro rfl
    exact spells_unescapeChars text
  · intro h
    induction h with
    | nil => rfl
    | tilde _ ih => exact congrArg (List.cons '~') ih
    | slash _ ih => exact congrArg (List.cons '/') ih
    | @kept c text token bare _ ih =>
      rw [unescapeChars.eq_3 c text, ih]
      · rintro rest htilde rfl
        exact (bare htilde).1 rfl
      · rintro rest htilde rfl
        exact (bare htilde).2 rfl

end JsonPatch.Pointer
