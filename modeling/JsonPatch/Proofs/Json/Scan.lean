import JsonPatch.Json.Basic
import JsonPatch.Proofs.Json.Numeral

namespace JsonPatch.Json

namespace Scan

/-- The tokens of a text that is read from a state on. -/
def run (s : Scan) (text : List Char) : Option (List Token) := do
  let s ← text.foldlM step s
  let s ← s.finish
  some s.tokens.reverse

theorem tokenize_eq_run (text : List Char) : tokenize text = run start text := rfl

theorem run_nil (s : Scan) : run s [] = s.finish.bind fun s => some s.tokens.reverse := rfl

theorem run_cons (s : Scan) (c : Char) (text : List Char) :
    run s (c :: text) = (s.step c).bind fun s => run s text := by
  simp only [run, List.foldlM_cons, Option.bind_eq_bind, Option.bind_assoc]

theorem hexDigit?_digitChar {d : Nat} (h : d < 16) : hexDigit? d.digitChar = some d := by
  have hall : ∀ d : Fin 16, hexDigit? (d : Nat).digitChar = some (d : Nat) := by decide
  exact hall ⟨d, h⟩

/-- A character below the space is read from its number. -/
theorem run_numbered (seen : List Char) (tokens : List Token) {c : Char} (h : c.toNat < 0x20)
    (rest : List Char) :
    run ⟨.string seen none, tokens⟩ (['\\', 'u', '0', '0', Nat.digitChar (c.toNat / 16),
      Nat.digitChar (c.toNat % 16)] ++ rest) = run ⟨.string (c :: seen) none, tokens⟩ rest := by
  have hhigh : hexDigit? (Nat.digitChar (c.toNat / 16)) = some (c.toNat / 16) :=
    hexDigit?_digitChar (by omega)
  have hlow : hexDigit? (Nat.digitChar (c.toNat % 16)) = some (c.toNat % 16) :=
    hexDigit?_digitChar (by omega)
  have hunit : c.toNat / 16 * 16 + c.toNat % 16 = c.toNat := by omega
  change run ⟨.code seen none 2 0, tokens⟩
    (Nat.digitChar (c.toNat / 16) :: Nat.digitChar (c.toNat % 16) :: rest) = _
  rw [run_cons]
  have hfirst : step ⟨.code seen none 2 0, tokens⟩ (Nat.digitChar (c.toNat / 16)) =
      some ⟨.code seen none 3 (c.toNat / 16), tokens⟩ := by
    simp [step, hhigh]
  rw [hfirst, Option.bind_some, run_cons]
  have hsecond : step ⟨.code seen none 3 (c.toNat / 16), tokens⟩
      (Nat.digitChar (c.toNat % 16)) = some ⟨.string (c :: seen) none, tokens⟩ := by
    have hplain : codeUnit seen c.toNat none = some (.string (c :: seen) none) := by
      rw [codeUnit, if_neg (by simp; omega), if_neg (by simp; omega), Char.ofNat_toNat]
    simp [step, hlow, hunit, hplain]
  rw [hsecond, Option.bind_some]

theorem run_escapeChar (seen : List Char) (tokens : List Token) (c : Char) (rest : List Char) :
    run ⟨.string seen none, tokens⟩ (Token.escapeChar c ++ rest) =
      run ⟨.string (c :: seen) none, tokens⟩ rest := by
  unfold Token.escapeChar
  split
  · rename_i h
    subst h
    rfl
  split
  · rename_i h
    subst h
    rfl
  split
  · rename_i h
    subst h
    rfl
  split
  · rename_i h
    subst h
    rfl
  split
  · rename_i h
    subst h
    rfl
  split
  · rename_i h
    subst h
    rfl
  split
  · rename_i h
    subst h
    rfl
  split
  · rename_i h
    exact run_numbered seen tokens h rest
  · rename_i hquote hslash _ _ _ _ _ hplain
    rw [List.singleton_append, run_cons]
    simp [step, hquote, hslash, hplain]

theorem run_escaped (seen : List Char) (tokens : List Token) (cs rest : List Char) :
    run ⟨.string seen none, tokens⟩ (cs.flatMap Token.escapeChar ++ rest) =
      run ⟨.string (cs.reverse ++ seen) none, tokens⟩ rest := by
  induction cs generalizing seen with
  | nil => rfl
  | cons c cs ih =>
    rw [List.flatMap_cons, List.append_assoc, run_escapeChar, ih, List.reverse_cons,
      List.append_assoc, List.singleton_append]

theorem run_stringText (tokens : List Token) (s : String) (rest : List Char) :
    run ⟨.between, tokens⟩ (Token.stringText s ++ rest) =
      run ⟨.between, .string s :: tokens⟩ rest := by
  have hquote : run ⟨.string s.toList.reverse none, tokens⟩ ('"' :: rest) =
      run ⟨.between, .string (String.ofList s.toList.reverse.reverse) :: tokens⟩ rest := rfl
  rw [List.reverse_reverse, String.ofList_toList] at hquote
  simp only [Token.stringText, List.cons_append, List.append_assoc, List.nil_append]
  change run ⟨.string [] none, tokens⟩ _ = _
  rw [run_escaped, List.append_nil, hquote]

/-- Nothing, or a character that ends words and numbers. -/
def AtMark (text : List Char) : Prop :=
  ∀ c ∈ text.head?, c = ']' ∨ c = '}' ∨ c = ',' ∨ c = ':'

theorem mode_of_finish {s t : Scan} (h : s.finish = some t) : t.mode = .between := by
  unfold finish at h
  split at h
  · cases h
    assumption
  · obtain ⟨_, -, rfl⟩ := Option.map_eq_some_iff.mp h
    rfl
  · obtain ⟨_, -, rfl⟩ := Option.map_eq_some_iff.mp h
    rfl
  · cases h

theorem finish_of_mode {s : Scan} (h : s.mode = .between) : s.finish = some s := by
  simp only [finish, h]

theorem step_of_mode {s : Scan} (h : s.mode = .between) (c : Char) : s.step c = s.begin c := by
  simp only [step, h]

/-- At a mark a word or a number ends. -/
theorem step_mark {s : Scan} {c : Char} (h : c = ']' ∨ c = '}' ∨ c = ',' ∨ c = ':')
    (hmode : (∃ seen, s.mode = .word seen) ∨ ∃ seen, s.mode = .numeral seen) :
    s.step c = s.finish.bind (·.begin c) := by
  rcases hmode with ⟨seen, hmode⟩ | ⟨seen, hmode⟩
  · have hlower : c.isLower = false := by rcases h with rfl | rfl | rfl | rfl <;> rfl
    simp only [step, hmode, hlower, Bool.false_eq_true, if_false]
  · have hnumeral : isNumeralChar c = false := by rcases h with rfl | rfl | rfl | rfl <;> rfl
    simp only [step, hmode, hnumeral, Bool.false_eq_true, if_false]

/-- Before a mark a word or a number is complete. -/
theorem run_of_atMark {s : Scan} {text : List Char} (h : AtMark text)
    (hmode : (∃ seen, s.mode = .word seen) ∨ ∃ seen, s.mode = .numeral seen) :
    run s text = s.finish.bind fun s => run s text := by
  cases text with
  | nil =>
    rw [run_nil]
    cases hfinish : s.finish with
    | none => rfl
    | some t =>
      rw [Option.bind_some, Option.bind_some, run_nil, finish_of_mode (mode_of_finish hfinish)]
      rfl
  | cons c cs =>
    rw [run_cons, step_mark (h c rfl) hmode]
    cases hfinish : s.finish with
    | none => rfl
    | some t =>
      rw [Option.bind_some, Option.bind_some, run_cons, step_of_mode (mode_of_finish hfinish)]

theorem run_word {tokens : List Token} {text rest : List Char} {token : Token} (h : AtMark rest)
    (hrun : run ⟨.between, tokens⟩ (text ++ rest) = run ⟨.word text.reverse, tokens⟩ rest)
    (hword : wordToken text.reverse = some token) :
    run ⟨.between, tokens⟩ (text ++ rest) = run ⟨.between, token :: tokens⟩ rest := by
  rw [hrun, run_of_atMark h (.inl ⟨_, rfl⟩)]
  simp only [finish, hword]
  rfl

theorem run_numeralChars (seen : List Char) (tokens : List Token) (cs rest : List Char)
    (h : ∀ c ∈ cs, isNumeralChar c = true) :
    run ⟨.numeral seen, tokens⟩ (cs ++ rest) =
      run ⟨.numeral (cs.reverse ++ seen), tokens⟩ rest := by
  induction cs generalizing seen with
  | nil => rfl
  | cons c cs ih =>
    have hc : isNumeralChar c = true := h c List.mem_cons_self
    have hstep : step ⟨.numeral seen, tokens⟩ c = some ⟨.numeral (c :: seen), tokens⟩ := by
      simp [step, hc]
    rw [List.cons_append, run_cons, hstep, Option.bind_some,
      ih _ fun e he => h e (List.mem_cons_of_mem c he), List.reverse_cons, List.append_assoc,
      List.singleton_append]

end Scan

namespace Token

/-- The token that is read from the text of a token. -/
def reread? : Token → Option Token
  | .number n => (Numeral.read? (n.text "e+").toList).map .number
  | token => some token

/-- Whether the text of a token shows its own end. -/
def IsClosed : Token → Prop
  | .null | .bool _ | .number _ => False
  | _ => True

/-- Whether a token ends words and numbers before it. -/
def IsMark : Token → Prop
  | .endArray | .endObject | .nameSeparator | .valueSeparator => True
  | _ => False

/-- Whether the number of a token, if it has one, can be read from a text. -/
def Canonical : Token → Prop
  | .number n => n.Canonical
  | _ => True

end Token

/-- Words and numbers are followed by marks only. -/
def Spaced : List Token → Prop
  | [] => True
  | token :: tokens => (token.IsClosed ∨ ∀ next ∈ tokens.head?, next.IsMark) ∧ Spaced tokens

theorem atMark_of_spaced {tokens : List Token} (h : ∀ next ∈ tokens.head?, next.IsMark) :
    Scan.AtMark (tokens.flatMap Token.text) := by
  cases tokens with
  | nil =>
    intro c hc
    cases hc
  | cons token tokens =>
    have hmark : token.IsMark := h token rfl
    intro c hc
    cases token with
    | endArray => exact .inl (Option.some.inj hc).symm
    | endObject => exact .inr (.inl (Option.some.inj hc).symm)
    | valueSeparator => exact .inr (.inr (.inl (Option.some.inj hc).symm))
    | nameSeparator => exact .inr (.inr (.inr (Option.some.inj hc).symm))
    | _ => exact hmark.elim

theorem step_numeral {tokens : List Token} {c : Char} (h : c.isDigit = true ∨ c = '-') :
    Scan.step ⟨.between, tokens⟩ c = some ⟨.numeral [c], tokens⟩ := by
  rcases h with h | rfl
  · have hne : ∀ e : Char, e.isDigit = false → c ≠ e := by
      intro e he heq
      rw [← heq, h] at he
      cases he
    change Scan.begin ⟨.between, tokens⟩ c = _
    simp [Scan.begin, h, hne ' ' rfl, hne '\t' rfl, hne '\n' rfl, hne '\r' rfl, hne '[' rfl,
      hne ']' rfl, hne '{' rfl, hne '}' rfl, hne ':' rfl, hne ',' rfl, hne '"' rfl]
  · rfl

theorem run_token {tokens : List Token} {token : Token} {rest : List Char}
    (hcanonical : token.Canonical) (hrest : token.IsClosed ∨ Scan.AtMark rest) :
    Scan.run ⟨.between, tokens⟩ (token.text ++ rest) =
      token.reread?.bind fun token => Scan.run ⟨.between, token :: tokens⟩ rest := by
  have hopen (hopen : ¬token.IsClosed) : Scan.AtMark rest := hrest.resolve_left hopen
  cases token with
  | null => exact Scan.run_word (hopen id) rfl rfl
  | bool b =>
    cases b with
    | true => exact Scan.run_word (hopen id) rfl rfl
    | false => exact Scan.run_word (hopen id) rfl rfl
  | number n =>
    obtain ⟨c, cs, htext, hc, hcs⟩ := Numeral.text_isNumeral hcanonical
    rw [Token.text, Token.reread?, htext, List.cons_append, Scan.run_cons, step_numeral hc,
      Option.bind_some, Scan.run_numeralChars _ _ _ _ hcs,
      Scan.run_of_atMark (hopen id) (.inr ⟨_, rfl⟩)]
    simp only [Scan.finish, List.reverse_append, List.reverse_reverse, List.reverse_singleton,
      List.singleton_append]
    cases Numeral.read? (c :: cs) <;> rfl
  | string s => exact Scan.run_stringText tokens s rest
  | _ => rfl

theorem run_tokens {tokens : List Token} (before : List Token) (hspaced : Spaced tokens)
    (hcanonical : ∀ token ∈ tokens, token.Canonical) :
    Scan.run ⟨.between, before⟩ (tokens.flatMap Token.text) =
      (tokens.mapM Token.reread?).map fun tokens => before.reverse ++ tokens := by
  induction tokens generalizing before with
  | nil =>
    change some before.reverse = some (before.reverse ++ [])
    rw [List.append_nil]
  | cons token tokens ih =>
    obtain ⟨hnext, hspaced⟩ := hspaced
    have hrest : token.IsClosed ∨ Scan.AtMark (tokens.flatMap Token.text) :=
      hnext.imp_right atMark_of_spaced
    rw [List.flatMap_cons, run_token (hcanonical token List.mem_cons_self) hrest, List.mapM_cons]
    cases token.reread? with
    | none => rfl
    | some read =>
      rw [Option.bind_some, ih (read :: before) hspaced fun t ht =>
        hcanonical t (List.mem_cons_of_mem token ht)]
      cases tokens.mapM Token.reread? with
      | none => rfl
      | some rest =>
        change some ((read :: before).reverse ++ rest) = some (before.reverse ++ read :: rest)
        rw [List.reverse_cons, List.append_assoc, List.singleton_append]

/-- The tokens of a written text are those that were written, each number read from its text. -/
theorem tokenize_text {tokens : List Token} (hspaced : Spaced tokens)
    (hcanonical : ∀ token ∈ tokens, token.Canonical) :
    tokenize (tokens.flatMap Token.text) = tokens.mapM Token.reread? := by
  rw [Scan.tokenize_eq_run, Scan.start, run_tokens [] hspaced hcanonical]
  cases tokens.mapM Token.reread? <;> rfl

end JsonPatch.Json
