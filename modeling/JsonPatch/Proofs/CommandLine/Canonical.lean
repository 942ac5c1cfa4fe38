import Mathlib.Data.List.Forall2
import JsonPatch.CommandLine.Arguments

namespace JsonPatch.CommandLine

/-- The names of the options that have one dash or two. -/
def longNames : List String := ["version", "yaml", "pretty", "check"]

/-- The words that an argument stands for. -/
inductive StandsFor : String → List String → Prop where
  | help {argument : String} (h : argument ∈ ["-help", "-h"]) : StandsFor argument ["--help"]
  | long {name : String} (h : name ∈ longNames) : StandsFor ("-" ++ name) ["--" ++ name]
  | output (file : String) : StandsFor ("-o=" ++ file) ["-o", file]
  | other {argument : String} (hhelp : argument ∉ ["-help", "-h"])
      (hlong : ∀ name ∈ longNames, argument ≠ "-" ++ name)
      (hmark : ∀ file, argument ≠ "-o=" ++ file) : StandsFor argument [argument]

/-- The words that a command stands for: the name of the program, and then what each argument stands
for, in order. -/
inductive CommandStandsFor : List String → List String → Prop where
  | nil : CommandStandsFor [] []
  | cons (program : String) {arguments : List String} {groups : List (List String)}
      (h : List.Forall₂ StandsFor arguments groups) :
      CommandStandsFor (program :: arguments) (program :: groups.flatten)

/-- What is left of a text when every mark at its front is dropped. -/
inductive Unmarked : String → String → Prop where
  | bare {file : String} (h : ∀ rest, file ≠ "-o=" ++ rest) : Unmarked file file
  | marked {text file : String} (h : Unmarked text file) : Unmarked ("-o=" ++ text) file

theorem toList_marked (text : String) :
    ("-o=" ++ text).toList = '-' :: 'o' :: '=' :: text.toList := by
  rw [String.toList_append]
  rfl

theorem outputMark_prefix_iff (text : String) :
    outputMark <+: text.toList ↔ ∃ rest, text = "-o=" ++ rest := by
  constructor
  · rintro ⟨cs, hcs⟩
    refine ⟨String.ofList cs, String.toList_injective ?_⟩
    rw [toList_marked, String.toList_ofList, ← hcs]
    rfl
  · rintro ⟨rest, rfl⟩
    rw [toList_marked]
    exact ⟨rest.toList, rfl⟩

theorem length_dropOutputMarks_le (cs : List Char) : (dropOutputMarks cs).length ≤ cs.length := by
  fun_induction dropOutputMarks cs with
  | case1 cs ih =>
    simp only [List.length_cons]
    omega
  | case2 cs => exact Nat.le_refl _

theorem dropOutputMarks_of_bare {cs : List Char} (h : ¬ outputMark <+: cs) :
    dropOutputMarks cs = cs := by
  fun_cases dropOutputMarks cs with
  | case1 cs => exact absurd ⟨cs, rfl⟩ h
  | case2 cs => rfl

/-- A text with a mark in front is longer than what is left of it. -/
theorem dropOutputMarks_ne_of_marked {cs : List Char} (h : outputMark <+: cs) :
    dropOutputMarks cs ≠ cs := by
  obtain ⟨rest, rfl⟩ := h
  intro heq
  have hdropped : dropOutputMarks rest = outputMark ++ rest := heq
  have hle := length_dropOutputMarks_le rest
  rw [hdropped, List.length_append] at hle
  have hmark : outputMark.length = 3 := rfl
  omega

theorem Unmarked.dropOutputMarks_eq {text file : String} (h : Unmarked text file) :
    String.ofList (dropOutputMarks text.toList) = file := by
  induction h with
  | bare h =>
    have hbare := mt (outputMark_prefix_iff _).mp (not_exists.mpr h)
    rw [dropOutputMarks_of_bare hbare, String.ofList_toList]
  | marked _ ih =>
    rw [toList_marked]
    exact ih

theorem unmarked_dropOutputMarks (cs : List Char) :
    Unmarked (String.ofList cs) (String.ofList (dropOutputMarks cs)) := by
  fun_induction dropOutputMarks cs with
  | case1 cs ih =>
    have htext : String.ofList ('-' :: 'o' :: '=' :: cs) = "-o=" ++ String.ofList cs := by
      apply String.toList_injective
      rw [toList_marked, String.toList_ofList, String.toList_ofList]
    rw [htext]
    exact .marked ih
  | case2 cs hbare =>
    refine .bare fun rest hrest => hbare rest.toList ?_
    rw [← toList_marked, ← hrest, String.toList_ofList]

theorem unmarked_iff (text file : String) :
    Unmarked text file ↔ String.ofList (dropOutputMarks text.toList) = file := by
  constructor
  · exact Unmarked.dropOutputMarks_eq
  · rintro rfl
    have h := unmarked_dropOutputMarks text.toList
    rwa [String.ofList_toList] at h

theorem canonicalArgument_marked (text : String) :
    canonicalArgument ("-o=" ++ text) = ["-o", String.ofList (dropOutputMarks text.toList)] := by
  have hmark : outputMark.isPrefixOf ("-o=" ++ text).toList = true :=
    List.isPrefixOf_iff_prefix.mpr ((outputMark_prefix_iff _).mpr ⟨text, rfl⟩)
  have hne {word : String} (h : word.toList.take 3 ≠ ['-', 'o', '=']) : "-o=" ++ text ≠ word := by
    rintro rfl
    rw [toList_marked] at h
    exact h rfl
  rw [canonicalArgument, if_neg, if_neg, if_neg, if_neg, if_neg, if_pos hmark, toList_marked]
  · rfl
  · exact hne (by decide)
  · exact hne (by decide)
  · exact hne (by decide)
  · exact hne (by decide)
  · exact not_or.mpr ⟨hne (by decide), hne (by decide)⟩

theorem canonicalArgument_of_unmarked {text file : String} (h : Unmarked text file) :
    canonicalArgument ("-o=" ++ text) = ["-o", file] := by
  rw [canonicalArgument_marked, h.dropOutputMarks_eq]

theorem canonicalArgument_help {argument : String} (h : argument ∈ ["-help", "-h"]) :
    canonicalArgument argument = ["--help"] := by
  rw [canonicalArgument, if_pos (by simpa using h)]

theorem canonicalArgument_long {name : String} (h : name ∈ longNames) :
    canonicalArgument ("-" ++ name) = ["--" ++ name] := by
  simp only [longNames, List.mem_cons, List.not_mem_nil, or_false] at h
  rcases h with rfl | rfl | rfl | rfl <;> decide

theorem canonicalArgument_other {argument : String} (hhelp : argument ∉ ["-help", "-h"])
    (hlong : ∀ name ∈ longNames, argument ≠ "-" ++ name)
    (hmark : ∀ file, argument ≠ "-o=" ++ file) : canonicalArgument argument = [argument] := by
  have hbare : ¬ outputMark.isPrefixOf argument.toList = true := by
    rw [List.isPrefixOf_iff_prefix, outputMark_prefix_iff]
    exact not_exists.mpr hmark
  have hversion : argument ≠ "-version" := hlong "version" (by simp [longNames])
  have hyaml : argument ≠ "-yaml" := hlong "yaml" (by simp [longNames])
  have hpretty : argument ≠ "-pretty" := hlong "pretty" (by simp [longNames])
  have hcheck : argument ≠ "-check" := hlong "check" (by simp [longNames])
  rw [canonicalArgument, if_neg (by simpa using hhelp), if_neg hversion, if_neg hyaml,
    if_neg hpretty, if_neg hcheck, if_neg hbare]

theorem StandsFor.eq_of_marked {text : String} {words : List String}
    (h : StandsFor ("-o=" ++ text) words) : words = ["-o", text] := by
  generalize hargument : "-o=" ++ text = argument at h
  have htoList := toList_marked text
  rw [hargument] at htoList
  cases h with
  | help hname =>
    simp only [List.mem_cons, List.not_mem_nil, or_false] at hname
    rcases hname with rfl | rfl <;> simp at htoList
  | long hname =>
    simp only [longNames, List.mem_cons, List.not_mem_nil, or_false] at hname
    rcases hname with rfl | rfl | rfl | rfl <;> simp at htoList
  | output file =>
    rw [toList_marked] at htoList
    have htext : file.toList = text.toList := by simpa using htoList
    rw [String.toList_injective htext]
  | other _ _ hmark => exact absurd hargument.symm (hmark text)

/-- An argument has as many words in its canonical form as it stands for, right ones or not. -/
theorem StandsFor.length_eq {argument : String} {words : List String}
    (h : StandsFor argument words) : words.length = (canonicalArgument argument).length := by
  cases h with
  | help h => rw [canonicalArgument_help h]
  | long h => simp [canonicalArgument_long h]
  | output file => simp [canonicalArgument_marked]
  | other hhelp hlong hmark => rw [canonicalArgument_other hhelp hlong hmark]

/-- The canonical form of an argument is what it stands for, unless there are two marks in front. -/
theorem standsFor_canonicalArgument_iff (argument : String) :
    StandsFor argument (canonicalArgument argument) ↔
      ∀ file, argument ≠ "-o=" ++ ("-o=" ++ file) := by
  constructor
  · rintro h file rfl
    have hwords := h.eq_of_marked
    rw [canonicalArgument_marked] at hwords
    have hfile : String.ofList (dropOutputMarks ("-o=" ++ file).toList) = "-o=" ++ file := by
      simpa using hwords
    have hdropped := congrArg String.toList hfile
    rw [String.toList_ofList] at hdropped
    exact dropOutputMarks_ne_of_marked ((outputMark_prefix_iff _).mpr ⟨file, rfl⟩) hdropped
  · intro h
    by_cases hmark : ∃ file, argument = "-o=" ++ file
    · obtain ⟨file, rfl⟩ := hmark
      have hbare : Unmarked file file := by
        refine .bare fun rest hrest => h rest ?_
        rw [← hrest]
      rw [canonicalArgument_of_unmarked hbare]
      exact .output file
    · by_cases hhelp : argument ∈ ["-help", "-h"]
      · rw [canonicalArgument_help hhelp]
        exact .help hhelp
      · by_cases hlong : ∃ name ∈ longNames, argument = "-" ++ name
        · obtain ⟨name, hname, rfl⟩ := hlong
          rw [canonicalArgument_long hname]
          exact .long hname
        · have hother : ∀ name ∈ longNames, argument ≠ "-" ++ name := by
            intro name hname heq
            exact hlong ⟨name, hname, heq⟩
          rw [canonicalArgument_other hhelp hother (not_exists.mp hmark)]
          exact .other hhelp hother (not_exists.mp hmark)

theorem canonical_cons (program : String) (arguments : List String) :
    canonical (program :: arguments) =
      program :: (arguments.map canonicalArgument).flatten := by
  rw [canonical, List.flatMap_def]

/-- Groups of words for the same arguments are told apart by their words alone. -/
theorem eq_map_canonicalArgument {arguments : List String} {groups : List (List String)}
    (h : List.Forall₂ StandsFor arguments groups)
    (hwords : groups.flatten = (arguments.map canonicalArgument).flatten) :
    groups = arguments.map canonicalArgument := by
  induction h with
  | nil => rfl
  | cons hfirst hrest ih =>
    rw [List.map_cons, List.flatten_cons, List.flatten_cons] at hwords
    obtain ⟨hwords, hbehind⟩ := List.append_inj hwords hfirst.length_eq
    rw [List.map_cons, ← hwords, ih hbehind]

theorem commandStandsFor_canonical_iff (command : List String) :
    CommandStandsFor command (canonical command) ↔
      ∀ argument ∈ command.tail, ∀ file, argument ≠ "-o=" ++ ("-o=" ++ file) := by
  cases command with
  | nil =>
    refine ⟨fun _ argument hargument => ?_, fun _ => .nil⟩
    cases hargument
  | cons program arguments =>
    have hgroups : (∀ argument ∈ arguments, ∀ file, argument ≠ "-o=" ++ ("-o=" ++ file)) ↔
        List.Forall₂ StandsFor arguments (arguments.map canonicalArgument) := by
      rw [List.forall₂_map_right_iff, List.forall₂_same]
      exact forall₂_congr fun argument _ => (standsFor_canonicalArgument_iff argument).symm
    rw [List.tail_cons, hgroups, canonical_cons]
    constructor
    · intro h
      generalize hwords : program :: (arguments.map canonicalArgument).flatten = words at h
      cases h with
      | cons _ h =>
        have hflatten := (List.cons.inj hwords).2
        rwa [eq_map_canonicalArgument h hflatten.symm] at h
    · exact .cons program

/-- An argument with two marks in front loses all of its marks. -/
theorem standsFor_or_unmarked (argument : String) :
    StandsFor argument (canonicalArgument argument) ∨ ∃ text file,
      argument = "-o=" ++ ("-o=" ++ text) ∧ Unmarked text file ∧
        canonicalArgument argument = ["-o", file] := by
  by_cases h : ∃ text, argument = "-o=" ++ ("-o=" ++ text)
  · obtain ⟨text, rfl⟩ := h
    have hfile := (unmarked_iff text _).mpr rfl
    exact .inr ⟨text, _, rfl, hfile, canonicalArgument_of_unmarked (.marked hfile)⟩
  · exact .inl ((standsFor_canonicalArgument_iff argument).mpr (not_exists.mp h))

/-- The canonical form of a command has the words that the command stands for, if and only if no
argument has two marks in front. -/
theorem canonical_words (command : List String) :
    (CommandStandsFor command (canonical command) ↔
      ∀ argument ∈ command.tail, ∀ file, argument ≠ "-o=" ++ ("-o=" ++ file)) ∧
    ∃ groups, canonical command = command.take 1 ++ groups.flatten ∧
      List.Forall₂ (fun argument words => StandsFor argument words ∨ ∃ text file,
          argument = "-o=" ++ ("-o=" ++ text) ∧ Unmarked text file ∧ words = ["-o", file])
        command.tail groups := by
  refine ⟨commandStandsFor_canonical_iff command, command.tail.map canonicalArgument, ?_, ?_⟩
  · cases command with
    | nil => rfl
    | cons program arguments => exact canonical_cons program arguments
  · rw [List.forall₂_map_right_iff, List.forall₂_same]
    intro argument _
    exact standsFor_or_unmarked argument

/-- A file whose name begins with a mark is taken for another file. -/
theorem canonical_loses_mark_of_file :
    canonical ["jpatch", "-o=-o=x"] = ["jpatch", "-o", "x"] ∧
    CommandStandsFor ["jpatch", "-o=-o=x"] ["jpatch", "-o", "-o=x"] ∧
    ¬ CommandStandsFor ["jpatch", "-o=-o=x"] (canonical ["jpatch", "-o=-o=x"]) := by
  refine ⟨by decide, ?_, ?_⟩
  · exact .cons "jpatch" (.cons (.output "-o=x") .nil)
  · rw [commandStandsFor_canonical_iff]
    intro h
    exact h "-o=-o=x" (by simp) "x" (by decide)

end JsonPatch.CommandLine
