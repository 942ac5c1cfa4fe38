import JsonPatch.Proofs.CommandLine.Session
import JsonPatch.Proofs.Rereading

namespace JsonPatch.CommandLine

variable {File : Type}

/-- The sources of the patch and of the document that inputs name. No path is empty. -/
inductive Named : List String → Source → Source → Prop where
  | patch {patch : String} (hpatch : patch ≠ "") : Named [patch] (.file patch) .input
  | both {patch document : String} (hpatch : patch ≠ "") (hdocument : document ≠ "") :
      Named [patch, document] (.file patch) (.file document)

/-- The text of a source that can be read. -/
inductive World.Holds (world : World File) : Source → String → Prop where
  | file {path text : String} (hfault : world.readFault? path = none)
      (hbytes : world.bytes (world.file path) = some text.toUTF8) : Holds world (.file path) text
  | input {text : String} (hbytes : world.input = .ok text.toUTF8) : Holds world .input text

/-- Why a source cannot be read. -/
inductive World.Lacks (world : World File) : Source → String → Prop where
  | fault {path reason : String} (hfault : world.readFault? path = some reason) :
      Lacks world (.file path) reason
  | missing {path : String} (hfault : world.readFault? path = none)
      (hbytes : world.bytes (world.file path) = none) :
      Lacks world (.file path) "No such file or directory (os error 2)"
  | garbled {path : String} {bytes : ByteArray} (hfault : world.readFault? path = none)
      (hbytes : world.bytes (world.file path) = some bytes)
      (htext : ∀ text, bytes ≠ String.toUTF8 text) :
      Lacks world (.file path) "stream did not contain valid UTF-8"
  | inputFault {reason : String} (hfault : world.input = .error reason) :
      Lacks world .input reason
  | inputGarbled {bytes : ByteArray} (hbytes : world.input = .ok bytes)
      (htext : ∀ text, bytes ≠ String.toUTF8 text) :
      Lacks world .input "stream did not contain valid UTF-8"

/-- The sources of a run that can all be read, and their texts. -/
structure Texts (options : Options) (world : World File) (patchSource documentSource : Source)
    (patchText documentText : String) : Prop where
  named : Named options.inputs patchSource documentSource
  patch : world.Holds patchSource patchText
  document : world.Holds documentSource documentText

/-- The patch and the document of a run. -/
inductive Parses (options : Options) (world : World File) (patch : Patch) (document : Node) :
    Prop where
  | intro {patchSource documentSource : Source} {patchText documentText : String}
      (htexts : Texts options world patchSource documentSource patchText documentText)
      (hpatch : (Patch.readText options.format patchText).outcome = .ok patch)
      (hdocument : Node.read options.format documentText = .ok document) :
      Parses options world patch document

/-- The patched document of a run. -/
inductive Yields (options : Options) (world : World File) (patched : Node) : Prop where
  | intro {patch : Patch} {document : Node} (hparses : Parses options world patch document)
      (hpatched : (patch.apply document).outcome = .ok patched) : Yields options world patched

/-- The fault of the first stage that fails, of those that lead to a patched document. -/
inductive Stops (options : Options) (world : World File) : RunError → Prop where
  | usage (hone : options.inputs.length ≠ 1) (htwo : options.inputs.length ≠ 2) :
      Stops options world .usage
  | emptyPath (hlength : options.inputs.length = 1 ∨ options.inputs.length = 2)
      (hempty : "" ∈ options.inputs) : Stops options world .emptyPath
  | patchNotRead {patchSource documentSource : Source} {reason : String}
      (hnamed : Named options.inputs patchSource documentSource)
      (hlacks : world.Lacks patchSource reason) : Stops options world (.notRead patchSource reason)
  | documentNotRead {patchSource documentSource : Source} {patchText reason : String}
      (hnamed : Named options.inputs patchSource documentSource)
      (hpatch : world.Holds patchSource patchText) (hlacks : world.Lacks documentSource reason) :
      Stops options world (.notRead documentSource reason)
  | noPatch {patchSource documentSource : Source} {patchText documentText : String}
      {cause : PatchError}
      (htexts : Texts options world patchSource documentSource patchText documentText)
      (hcause : (Patch.readText options.format patchText).outcome = .error cause) :
      Stops options world (.noPatch patchSource.name cause)
  | noDocument {patchSource documentSource : Source} {patchText documentText : String}
      {patch : Patch} {cause : ReadError}
      (htexts : Texts options world patchSource documentSource patchText documentText)
      (hpatch : (Patch.readText options.format patchText).outcome = .ok patch)
      (hcause : Node.read options.format documentText = .error cause) :
      Stops options world (.noDocument documentSource cause)
  | notApplied {patch : Patch} {document : Node} {cause : ApplyError}
      (hparses : Parses options world patch document)
      (hcause : (patch.apply document).outcome = .error cause) :
      Stops options world (.notApplied cause)

/-- The fault of the first stage that fails, the delivery being the last. -/
inductive FirstFault (options : Options) (world : World File) : RunError → Prop where
  | stopped {error : RunError} (h : Stops options world error) : FirstFault options world error
  | notWritten {patched : Node} {path reason : String} (hyields : Yields options world patched)
      (hpath : options.output = some path) (hfault : world.writeFault? path = some reason) :
      FirstFault options world (.notWritten path reason)

/-- Whether the file that the options name can be written, if they name one. -/
def Writable (options : Options) (world : World File) : Prop :=
  ∀ path, options.output = some path → world.writeFault? path = none

/-- What a delivery changes: the file that the options name, or else what is printed. -/
structure Delivered (options : Options) (text : String) (world after : World File) : Prop where
  named : ∀ path, options.output = some path → after.bytes (world.file path) = some text.toUTF8
  others : ∀ file, (∀ path, options.output = some path → file ≠ world.file path) →
    after.bytes file = world.bytes file
  output : after.output = if options.output.isSome then world.output else world.output ++ text
  kept : after =
    { world with bytes := after.bytes, output := after.output, report := after.report }

theorem fileSource_of_ne {path : String} (h : path ≠ "") : fileSource path = .ok (.file path) := by
  rw [fileSource, if_neg (by simpa using h)]

theorem sources_of_named {inputs : List String} {patchSource documentSource : Source}
    (h : Named inputs patchSource documentSource) :
    sources inputs = .ok (patchSource, documentSource) := by
  cases h with
  | patch hpatch =>
    rw [sources, fileSource_of_ne hpatch]
    rfl
  | both hpatch hdocument =>
    rw [sources, fileSource_of_ne hpatch, fileSource_of_ne hdocument]
    rfl

theorem sources_of_length {inputs : List String} (hone : inputs.length ≠ 1)
    (htwo : inputs.length ≠ 2) : sources inputs = .error .usage := by
  rcases inputs with _ | ⟨patch, _ | ⟨document, _ | ⟨third, rest⟩⟩⟩
  · rfl
  · exact absurd rfl hone
  · exact absurd rfl htwo
  · rfl

theorem sources_of_empty {inputs : List String} (hlength : inputs.length = 1 ∨ inputs.length = 2)
    (hempty : "" ∈ inputs) : sources inputs = .error .emptyPath := by
  rcases inputs with _ | ⟨patch, _ | ⟨document, _ | ⟨third, rest⟩⟩⟩
  · cases hempty
  · cases List.mem_singleton.mp hempty
    rfl
  · by_cases hpatch : patch = ""
    · rw [hpatch]
      rfl
    · have hdocument : document = "" := by simpa [Ne.symm hpatch, eq_comm] using hempty
      rw [sources, fileSource_of_ne hpatch, hdocument]
      rfl
  · simp at hlength

theorem named_cases (inputs : List String) :
    (∃ patchSource documentSource, Named inputs patchSource documentSource) ∨
    (inputs.length ≠ 1 ∧ inputs.length ≠ 2) ∨
    ((inputs.length = 1 ∨ inputs.length = 2) ∧ "" ∈ inputs) := by
  by_cases hlength : inputs.length = 1 ∨ inputs.length = 2
  · by_cases hempty : "" ∈ inputs
    · exact .inr (.inr ⟨hlength, hempty⟩)
    · have hne : ∀ path ∈ inputs, path ≠ "" := by
        rintro path hpath rfl
        exact hempty hpath
      rcases inputs with _ | ⟨patch, _ | ⟨document, _ | ⟨third, rest⟩⟩⟩
      · simp at hlength
      · exact .inl ⟨_, _, .patch (hne patch (by simp))⟩
      · exact .inl ⟨_, _, .both (hne patch (by simp)) (hne document (by simp))⟩
      · simp at hlength
  · exact .inr (.inl (not_or.mp hlength))

namespace World

theorem decode_toUTF8 (text : String) : decode text.toUTF8 = .ok text := by
  have hvalid : text.toUTF8.IsValidUTF8 := text.isValidUTF8
  rw [decode, String.fromUTF8?, dif_pos hvalid]
  rfl

theorem decode_of_ne {bytes : ByteArray} (h : ∀ text, bytes ≠ String.toUTF8 text) :
    decode bytes = .error "stream did not contain valid UTF-8" := by
  have hinvalid : ¬ bytes.IsValidUTF8 := fun hvalid => h (String.fromUTF8 bytes hvalid) rfl
  rw [decode, String.fromUTF8?, dif_neg hinvalid]

variable {world : World File} {source : Source}

theorem read_of_holds {text : String} (h : world.Holds source text) :
    world.surroundings.read source = .ok text := by
  cases h with
  | file hfault hbytes =>
    simp only [Surroundings.read, surroundings, readFile, hfault, hbytes, decode_toUTF8]
    rfl
  | input hbytes =>
    have hinput : world.input >>= decode = decode text.toUTF8 := by
      rw [hbytes]
      rfl
    simp only [Surroundings.read, surroundings, hinput, decode_toUTF8]
    rfl

theorem read_of_lacks {reason : String} (h : world.Lacks source reason) :
    world.surroundings.read source = .error (.notRead source reason) := by
  cases h with
  | fault hfault =>
    simp only [Surroundings.read, surroundings, readFile, hfault]
    rfl
  | missing hfault hbytes =>
    simp only [Surroundings.read, surroundings, readFile, hfault, hbytes]
    rfl
  | garbled hfault hbytes htext =>
    simp only [Surroundings.read, surroundings, readFile, hfault, hbytes, decode_of_ne htext]
    rfl
  | inputFault hfault =>
    simp only [Surroundings.read, surroundings, hfault]
    rfl
  | @inputGarbled bytes hbytes htext =>
    have hinput : world.input >>= decode = decode bytes := by
      rw [hbytes]
      rfl
    simp only [Surroundings.read, surroundings, hinput, decode_of_ne htext]
    rfl

theorem holds_or_lacks (world : World File) (source : Source) :
    (∃ text, world.Holds source text) ∨ ∃ reason, world.Lacks source reason := by
  cases source with
  | file path =>
    cases hfault : world.readFault? path with
    | some reason => exact .inr ⟨reason, .fault hfault⟩
    | none =>
      cases hbytes : world.bytes (world.file path) with
      | none => exact .inr ⟨_, .missing hfault hbytes⟩
      | some bytes =>
        by_cases htext : ∃ text, bytes = String.toUTF8 text
        · obtain ⟨text, rfl⟩ := htext
          exact .inl ⟨text, .file hfault hbytes⟩
        · exact .inr ⟨_, .garbled hfault hbytes (not_exists.mp htext)⟩
  | input =>
    cases hbytes : world.input with
    | error reason => exact .inr ⟨reason, .inputFault hbytes⟩
    | ok bytes =>
      by_cases htext : ∃ text, bytes = String.toUTF8 text
      · obtain ⟨text, rfl⟩ := htext
        exact .inl ⟨text, .input hbytes⟩
      · exact .inr ⟨_, .inputGarbled hbytes (not_exists.mp htext)⟩

end World

variable {options : Options} {world : World File}

/-- One stage after another either ends well or is the first that does not. -/
theorem yields_or_stops (options : Options) (world : World File) :
    (∃ patched, Yields options world patched) ∨ ∃ error, Stops options world error := by
  rcases named_cases options.inputs with ⟨patchSource, documentSource, hnamed⟩ | hlength | hempty
  · rcases world.holds_or_lacks patchSource with ⟨patchText, hpatchText⟩ | ⟨reason, hlacks⟩
    · rcases world.holds_or_lacks documentSource with
        ⟨documentText, hdocumentText⟩ | ⟨reason, hlacks⟩
      · have htexts : Texts options world patchSource documentSource patchText documentText :=
          ⟨hnamed, hpatchText, hdocumentText⟩
        cases hpatch : (Patch.readText options.format patchText).outcome with
        | error cause => exact .inr ⟨_, .noPatch htexts hpatch⟩
        | ok patch =>
          cases hdocument : Node.read options.format documentText with
          | error cause => exact .inr ⟨_, .noDocument htexts hpatch hdocument⟩
          | ok document =>
            have hparses : Parses options world patch document := .intro htexts hpatch hdocument
            cases hpatched : (patch.apply document).outcome with
            | error cause => exact .inr ⟨_, .notApplied hparses hpatched⟩
            | ok patched => exact .inl ⟨patched, .intro hparses hpatched⟩
      · exact .inr ⟨_, .documentNotRead hnamed hpatchText hlacks⟩
    · exact .inr ⟨_, .patchNotRead hnamed hlacks⟩
  · exact .inr ⟨_, .usage hlength.1 hlength.2⟩
  · exact .inr ⟨_, .emptyPath hempty.1 hempty.2⟩

theorem outcome_of_texts {patchSource documentSource : Source} {patchText documentText : String}
    (h : Texts options world patchSource documentSource patchText documentText) :
    (applyPatch options world.surroundings).outcome = do
      let patch ← (Patch.readText options.format patchText).outcome.mapError
        (.noPatch patchSource.name)
      let document ← (Node.read options.format documentText).mapError (.noDocument documentSource)
      let patched ← (patch.apply document).outcome.mapError .notApplied
      return options.render patched := by
  rw [applyPatch, sources_of_named h.named, Traced.ofExcept_ok, pure_bind]
  simp only [World.read_of_holds h.patch, World.read_of_holds h.document, Traced.ofExcept_ok,
    pure_bind, Traced.outcome_bind, Traced.outcome_mapError, Traced.outcome_ofExcept,
    Traced.outcome_report, Traced.outcome_pure]
  rfl

theorem outcome_of_parses {patch : Patch} {document : Node}
    (h : Parses options world patch document) :
    (applyPatch options world.surroundings).outcome = do
      let patched ← (patch.apply document).outcome.mapError .notApplied
      return options.render patched := by
  obtain ⟨htexts, hpatch, hdocument⟩ := h
  rw [outcome_of_texts htexts, hpatch, hdocument]
  rfl

theorem outcome_of_yields {patched : Node} (h : Yields options world patched) :
    (applyPatch options world.surroundings).outcome = .ok (options.render patched) := by
  obtain ⟨hparses, hpatched⟩ := h
  rw [outcome_of_parses hparses, hpatched]
  rfl

theorem outcome_of_stops {error : RunError} (h : Stops options world error) :
    (applyPatch options world.surroundings).outcome = .error error := by
  cases h with
  | usage hone htwo =>
    rw [applyPatch, sources_of_length hone htwo]
    rfl
  | emptyPath hlength hempty =>
    rw [applyPatch, sources_of_empty hlength hempty]
    rfl
  | patchNotRead hnamed hlacks =>
    rw [applyPatch, sources_of_named hnamed, Traced.ofExcept_ok, pure_bind]
    simp only [World.read_of_lacks hlacks]
    rfl
  | documentNotRead hnamed hpatch hlacks =>
    rw [applyPatch, sources_of_named hnamed, Traced.ofExcept_ok, pure_bind]
    simp only [World.read_of_holds hpatch, World.read_of_lacks hlacks]
    rfl
  | noPatch htexts hcause =>
    rw [outcome_of_texts htexts, hcause]
    rfl
  | noDocument htexts hpatch hcause =>
    rw [outcome_of_texts htexts, hpatch, hcause]
    rfl
  | notApplied hparses hcause =>
    rw [outcome_of_parses hparses, hcause]
    rfl

/-- What the log shows of the stages that a run goes through. -/
def World.told (world : World File) (options : Options) : String :=
  log (.choose options.verbosity world.logSetting) (applyPatch options world.surroundings).events

theorem FirstFault.unique {first second : RunError} (hfirst : FirstFault options world first)
    (hsecond : FirstFault options world second) : first = second := by
  cases hfirst with
  | stopped hfirst =>
    have houtcome := outcome_of_stops hfirst
    cases hsecond with
    | stopped hsecond =>
      rw [outcome_of_stops hsecond] at houtcome
      cases houtcome
      rfl
    | notWritten hyields =>
      rw [outcome_of_yields hyields] at houtcome
      cases houtcome
  | notWritten hyields hpath hfault =>
    cases hsecond with
    | stopped hsecond =>
      have houtcome := outcome_of_stops hsecond
      rw [outcome_of_yields hyields] at houtcome
      cases houtcome
    | notWritten _ hpath' hfault' =>
      rw [hpath] at hpath'
      cases hpath'
      rw [hfault] at hfault'
      cases hfault'
      rfl

theorem writable_or_firstFault (options : Options) (world : World File) :
    (∃ patched, Yields options world patched ∧ Writable options world) ∨
      ∃ error, FirstFault options world error := by
  rcases yields_or_stops options world with ⟨patched, hyields⟩ | ⟨error, hstops⟩
  · cases hpath : options.output with
    | none =>
      refine .inl ⟨patched, hyields, fun path h => ?_⟩
      rw [hpath] at h
      cases h
    | some path =>
      cases hfault : world.writeFault? path with
      | none =>
        refine .inl ⟨patched, hyields, fun other h => ?_⟩
        rw [hpath] at h
        cases h
        exact hfault
      | some reason => exact .inr ⟨_, .notWritten hyields hpath hfault⟩
  · exact .inr ⟨error, .stopped hstops⟩

theorem perform_of_ok {text : String} (hcheck : options.has .check = false)
    (h : (applyPatch options world.surroundings).outcome = .ok text) :
    perform options world.surroundings =
      deliver options world.surroundings (world.told options) text := by
  have hsetting : world.surroundings.logSetting = world.logSetting := rfl
  simp [perform, hcheck, h, hsetting, World.told]

theorem perform_of_error {error : RunError} (hcheck : options.has .check = false)
    (h : (applyPatch options world.surroundings).outcome = .error error) :
    perform options world.surroundings =
      ⟨1, "", world.told options ++ error.message ++ "\n", none⟩ := by
  have hsetting : world.surroundings.logSetting = world.logSetting := rfl
  simp [perform, hcheck, h, hsetting, World.told]

theorem World.delivered_of_writable [DecidableEq File] (hwritable : Writable options world)
    (report text : String) :
    (deliver options world.surroundings report text).exitCode = 0 ∧
    Delivered options text world (world.after (deliver options world.surroundings report text)) ∧
    (world.after (deliver options world.surroundings report text)).report =
      world.report ++ report := by
  unfold deliver
  cases hpath : options.output with
  | none =>
    refine ⟨rfl, ?_, rfl⟩
    exact {
      named := by simp [hpath]
      others := fun file _ => rfl
      output := by simp [hpath, after, print, addReport]
      kept := rfl }
  | some path =>
    have hfault : world.surroundings.writeFault? path = none := hwritable path hpath
    simp only [hfault, true_and]
    refine ⟨?_, rfl⟩
    exact {
      named := by
        intro named hnamed
        rw [hpath] at hnamed
        cases hnamed
        exact bytes_write_self _ path text
      others := fun file hfile => bytes_write_of_ne (hfile path hpath) text
      output := by simp [hpath, after, print, addReport, write]
      kept := rfl }

section Run

variable [DecidableEq File] {command : List String}
  (hoptions : Options.ofCommand? command = some options) (hhelp : options.has .help = false)
  (hversion : options.has .version = false) (hcheck : options.has .check = false)

include hoptions hhelp hversion

theorem World.run_eq_after_perform (world : World File) :
    world.run command = ((perform options world.surroundings).exitCode,
      world.after (perform options world.surroundings)) := by
  rw [World.run_eq, CommandLine.run, hoptions]
  simp [hhelp, hversion]

include hcheck

theorem World.run_of_writable {patched : Node} (hyields : Yields options world patched)
    (hwritable : Writable options world) :
    (world.run command).1 = 0 ∧
    Delivered options (options.render patched) world (world.run command).2 ∧
    (world.run command).2.report = world.report ++ world.told options := by
  rw [World.run_eq_after_perform hoptions hhelp hversion,
    perform_of_ok hcheck (outcome_of_yields hyields)]
  exact World.delivered_of_writable hwritable _ _

theorem World.run_of_firstFault {error : RunError} (h : FirstFault options world error) :
    world.run command =
      (1, world.addReport (world.told options ++ error.message ++ "\n")) := by
  rw [World.run_eq_after_perform hoptions hhelp hversion]
  cases h with
  | stopped h =>
    rw [perform_of_error hcheck (outcome_of_stops h)]
    simp only [after, print_empty]
  | @notWritten patched path reason hyields hpath hfault =>
    have hfault : world.surroundings.writeFault? path = some reason := hfault
    rw [perform_of_ok hcheck (outcome_of_yields hyields)]
    simp only [deliver, hpath, hfault, after, print_empty]

end Run

/-- A run that applies a patch delivers the patched document, or else changes nothing and reports
the fault of the first stage that fails, in the words of that stage. -/
theorem World.run_all_or_nothing [DecidableEq File] {command : List String}
    (hoptions : Options.ofCommand? command = some options) (hhelp : options.has .help = false)
    (hversion : options.has .version = false) (hcheck : options.has .check = false)
    (world : World File) :
    ((world.run command).1 = 0 ↔
      (∃ patched, Yields options world patched) ∧ Writable options world) ∧
    (∀ patched, Yields options world patched → Writable options world →
      Delivered options (options.render patched) world (world.run command).2 ∧
      (world.run command).2.report = world.report ++ world.told options) ∧
    ((world.run command).1 ≠ 0 → ∃ error,
      (∀ fault, FirstFault options world fault ↔ fault = error) ∧
      (∀ stage : Stage, stage.opening.toList <+: error.message.toList ↔ stage = error.stage) ∧
      world.run command =
        (1, world.addReport (world.told options ++ error.message ++ "\n"))) := by
  have hdelivered {patched : Node} (hyields : Yields options world patched)
      (hwritable : Writable options world) :=
    World.run_of_writable hoptions hhelp hversion hcheck hyields hwritable
  refine ⟨⟨fun hzero => ?_, fun ⟨⟨patched, hyields⟩, hwritable⟩ => ?_⟩, ?_, fun hfails => ?_⟩
  · rcases writable_or_firstFault options world with ⟨patched, hyields, hwritable⟩ | ⟨error, hfault⟩
    · exact ⟨⟨patched, hyields⟩, hwritable⟩
    · rw [World.run_of_firstFault hoptions hhelp hversion hcheck hfault] at hzero
      cases hzero
  · exact (hdelivered hyields hwritable).1
  · intro patched hyields hwritable
    exact (hdelivered hyields hwritable).2
  · rcases writable_or_firstFault options world with ⟨patched, hyields, hwritable⟩ | ⟨error, hfault⟩
    · exact absurd (hdelivered hyields hwritable).1 hfails
    · refine ⟨error, fun other => ⟨fun hother => hother.unique hfault, ?_⟩,
        error.opening_prefix_message_iff,
        World.run_of_firstFault hoptions hhelp hversion hcheck hfault⟩
      rintro rfl
      exact hfault

/-- A patch, and a document that has a second path. -/
def World.linked : World String where
  file path := if path = "./d" then "d" else path
  bytes file :=
    if file = "p" then some "\x7b\"op\":\"remove\",\"path\":\"/0\"\x7d".toUTF8
    else if file = "d" then some "[1,2]".toUTF8
    else none
  readFault? _ := none
  writeFault? _ := none
  input := .ok "".toUTF8
  output := ""
  report := ""
  logSetting := none

def Options.inPlace : Options := ⟨[], some "./d", 0, ["p", "d"]⟩

theorem readText_remove :
    (Patch.readText .json "\x7b\"op\":\"remove\",\"path\":\"/0\"\x7d").outcome =
      .ok ⟨[.remove (Pointer.spell ["0"])], List.cons_ne_nil _ _⟩ := by
  have hordered : (Node.object [("op", .string "remove"), ("path", .string "/0")]).Ordered := by
    refine ⟨?_, trivial, trivial, trivial⟩
    simp only [Members.Ascending, List.pairwise_cons, List.forall_mem_singleton]
    exact ⟨by decide, by simp, .nil⟩
  have hread := (Node.ofJsonText_text_eq_self_iff hordered).mpr
    ⟨by decide, by simp [Node.doubles, Node.memberDoubles]⟩
  have htext : (Node.object [("op", .string "remove"), ("path", .string "/0")]).text =
      "\x7b\"op\":\"remove\",\"path\":\"/0\"\x7d" := rfl
  rw [htext] at hread
  rw [Patch.readText, Node.read, hread]
  rfl

theorem yields_linked : Yields .inPlace .linked (.array [.number (.ofInt32 2)]) := by
  have htexts : Texts .inPlace .linked (.file "p") (.file "d")
      "\x7b\"op\":\"remove\",\"path\":\"/0\"\x7d" "[1,2]" :=
    { named := .both (by decide) (by decide)
      patch := .file rfl (by simp [World.linked])
      document := .file rfl (by simp [World.linked]) }
  have hdocument : Node.read .json "[1,2]" =
      .ok (.array [.number (.ofInt32 1), .number (.ofInt32 2)]) := rfl
  exact .intro (.intro htexts readText_remove hdocument) rfl

/-- A document is patched in place, by another path than the one it is read from. -/
theorem World.run_all_or_nothing_in_place :
    Options.ofCommand? ["jpatch", "-o=./d", "p", "d"] = some .inPlace ∧
    (∀ flag, Options.inPlace.has flag = false) ∧
    (linked.run ["jpatch", "-o=./d", "p", "d"]).1 = 0 ∧
    (linked.run ["jpatch", "-o=./d", "p", "d"]).2.bytes "d" = some "[2]\n".toUTF8 ∧
    (linked.run ["jpatch", "-o=./d", "p", "d"]).2.bytes "p" = linked.bytes "p" ∧
    (linked.run ["jpatch", "-o=./d", "p", "d"]).2.output = "" := by
  have hoptions : Options.ofCommand? ["jpatch", "-o=./d", "p", "d"] = some .inPlace := rfl
  have hflags (flag : Flag) : Options.inPlace.has flag = false := rfl
  have hwritable : Writable .inPlace linked := fun _ _ => rfl
  obtain ⟨hzero, hdelivered, -⟩ :=
    run_all_or_nothing hoptions (hflags .help) (hflags .version) (hflags .check) linked
  obtain ⟨hdone, -⟩ := hdelivered _ yields_linked hwritable
  have hrender : Options.inPlace.render (.array [.number (.ofInt32 2)]) = "[2]\n" := rfl
  have hfile : linked.file "./d" = "d" := by simp [linked]
  have hwritten := hdone.named "./d" rfl
  rw [hfile, hrender] at hwritten
  have hothers := hdone.others "p" fun path hpath => by
    cases hpath
    rw [hfile]
    decide
  exact ⟨hoptions, hflags, hzero.mpr ⟨⟨_, yields_linked⟩, hwritable⟩, hwritten, hothers,
    hdone.output⟩

end JsonPatch.CommandLine
