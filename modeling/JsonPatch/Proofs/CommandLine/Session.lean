import JsonPatch.CommandLine.Directory
import JsonPatch.Proofs.Traced

namespace JsonPatch.CommandLine

/-- What a run works on: files and the paths to them, the input, what has been printed and reported,
and the setting of the log. Several paths may lead to one file. -/
structure World (File : Type) where
  file : String → File
  bytes : File → Option ByteArray
  readFault? : String → Option String
  writeFault? : String → Option String
  input : Except String ByteArray
  output : String
  report : String
  logSetting : Option String

/-- A part of a run. What it did before a fault stays done. -/
abbrev Action (File α : Type) := EStateM RunError (World File) α

namespace World

variable {File : Type}

/-- The text that some bytes spell. -/
def decode (bytes : ByteArray) : Except String String :=
  match String.fromUTF8? bytes with
  | some text => .ok text
  | none => .error "stream did not contain valid UTF-8"

def readFile (world : World File) (path : String) : Except String String :=
  match world.readFault? path, world.bytes (world.file path) with
  | some reason, _ => .error reason
  | none, none => .error Directory.Fault.missing.reason
  | none, some bytes => decode bytes

def surroundings (world : World File) : Surroundings :=
  ⟨world.readFile, world.input >>= decode, world.writeFault?, world.logSetting⟩

def print (world : World File) (text : String) : World File :=
  { world with output := world.output ++ text }

def addReport (world : World File) (text : String) : World File :=
  { world with report := world.report ++ text }

/-- Gives a file a new content. Every path to the file leads to it. -/
def write [DecidableEq File] (world : World File) (path text : String) : World File :=
  { world with
    bytes := fun file => if file = world.file path then some text.toUTF8 else world.bytes file }

theorem bytes_write_self [DecidableEq File] (world : World File) (path text : String) :
    (world.write path text).bytes (world.file path) = some text.toUTF8 := if_pos rfl

theorem bytes_write_of_ne [DecidableEq File] {world : World File} {path : String} {file : File}
    (h : file ≠ world.file path) (text : String) :
    (world.write path text).bytes file = world.bytes file := if_neg h

end World

namespace Action

variable {File α : Type}

/-- Ends with a value or a fault, and changes nothing. -/
def ofExcept (outcome : Except RunError α) : Action File α := fun world =>
  match outcome with
  | .ok value => .ok value world
  | .error error => .error error world

def read (source : Source) : Action File String := fun world =>
  ofExcept (world.surroundings.read source) world

/-- Puts what a computation reports into the report, as far as the log shows it. -/
def logged (filter : LogFilter) (computation : Traced RunError α) : Action File α := fun world =>
  ofExcept computation.outcome (world.addReport (log filter computation.events))

/-- Prints a text, or writes it to the file that the options name. -/
def deliver [DecidableEq File] (options : Options) (text : String) : Action File Unit :=
  fun world =>
  match options.output with
  | none => .ok () (world.print text)
  | some path =>
    match world.writeFault? path with
    | none => .ok () (world.write path text)
    | some reason => .error (.notWritten path reason) world

/-- Checks a patch as it reads it. -/
def check (options : Options) (filter : LogFilter) : Action File String :=
  match options.inputs with
  | [path] => do
    let source ← ofExcept (fileSource path)
    let text ← read source
    let patch ← logged filter
      ((Patch.readText options.format text).mapError (.noPatch source.name))
    return toString patch.size ++ " operation(s)\n"
  | _ => throw .usage

/-- Applies a patch to a document: reads the one, then the other, and parses them in this order. -/
def apply (options : Options) (filter : LogFilter) : Action File String := do
  let (patchSource, documentSource) ← ofExcept (sources options.inputs)
  let patchText ← read patchSource
  let documentText ← read documentSource
  let patch ← logged filter
    ((Patch.readText options.format patchText).mapError (.noPatch patchSource.name))
  let document ← ofExcept
    ((Node.read options.format documentText).mapError (.noDocument documentSource))
  logged filter (Traced.report (.patchLoaded patch.size))
  let patched ← logged filter ((patch.apply document).mapError .notApplied)
  logged filter (Traced.report (.patchApplied patch.size))
  return options.render patched

def perform [DecidableEq File] (options : Options) (filter : LogFilter) : Action File Unit := do
  let text ← if options.has .check then check options filter else apply options filter
  deliver options text

end Action

namespace World

variable {File : Type}

/-- The end of a run: its exit code, and the world after it. A fault is reported. -/
def finish : EStateM.Result RunError (World File) Unit → Nat × World File
  | .ok _ world => (0, world)
  | .error error world => (1, world.addReport (error.message ++ "\n"))

/-- The run of a command. -/
def run [DecidableEq File] (world : World File) (command : List String) : Nat × World File :=
  match Options.ofCommand? command with
  | none => (2, world)
  | some options =>
    if options.has .help then (0, world.print helpText)
    else if options.has .version then (0, world.print versionLine)
    else finish (Action.perform options (.choose options.verbosity world.logSetting) world)

/-- The world after an outcome. -/
def after [DecidableEq File] (world : World File) (outcome : Outcome) : World File :=
  let told := (world.print outcome.output).addReport outcome.report
  match outcome.written with
  | none => told
  | some (path, text) => told.write path text

end World

theorem log_nil (filter : LogFilter) : log filter [] = "" := rfl

theorem log_append (filter : LogFilter) (first second : List Event) :
    log filter (first ++ second) = log filter first ++ log filter second := by
  simp only [log, List.filter_append, List.map_append, String.join_append]

theorem World.addReport_addReport {File : Type} (world : World File) (first second : String) :
    (world.addReport first).addReport second = world.addReport (first ++ second) := by
  simp only [World.addReport, String.append_assoc]

/-- An action that ends as a computation does, and changes nothing but the report: it adds what the
log shows of the computation. -/
def Mirrors {File α : Type} (world : World File) (filter : LogFilter) (action : Action File α)
    (computation : Traced RunError α) : Prop :=
  ∀ told, action (world.addReport told) =
    Action.ofExcept computation.outcome (world.addReport (told ++ log filter computation.events))

namespace Mirrors

variable {File α β : Type} {world : World File} {filter : LogFilter}

theorem ofExcept (outcome : Except RunError α) :
    Mirrors world filter (Action.ofExcept outcome) (Traced.ofExcept outcome) := by
  intro told
  change _ = Action.ofExcept outcome (world.addReport (told ++ log filter []))
  rw [log_nil, String.append_empty]

theorem pure (value : α) : Mirrors world filter (Pure.pure value) (Pure.pure value) :=
  ofExcept (.ok value)

theorem fail (error : RunError) :
    Mirrors (α := α) world filter (throw error) (Traced.fail error) :=
  ofExcept (.error error)

/-- No report changes what a source holds. -/
theorem read (source : Source) : Mirrors world filter (Action.read source)
    (Traced.ofExcept (world.surroundings.read source)) :=
  ofExcept (world.surroundings.read source)

theorem logged (computation : Traced RunError α) :
    Mirrors world filter (Action.logged filter computation) computation := by
  intro told
  rw [Action.logged, World.addReport_addReport]

theorem bind {action : Action File α} {computation : Traced RunError α}
    {next : α → Action File β} {rest : α → Traced RunError β}
    (h : Mirrors world filter action computation)
    (hnext : ∀ value, Mirrors world filter (next value) (rest value)) :
    Mirrors world filter (action >>= next) (computation >>= rest) := by
  intro told
  change EStateM.bind action next _ = _
  rw [EStateM.bind, h told]
  -- What follows starts from a longer report, and from nothing else that is new.
  cases houtcome : computation.outcome with
  | ok value =>
    rw [Traced.bind_of_ok houtcome, log_append, ← String.append_assoc]
    exact hnext value _
  | error error =>
    rw [Traced.bind_of_error houtcome]
    rfl

theorem check (options : Options) :
    Mirrors world filter (Action.check options filter) (checkPatch options world.surroundings) := by
  unfold Action.check checkPatch
  rcases options.inputs with _ | ⟨path, _ | ⟨document, rest⟩⟩
  · exact fail .usage
  · refine bind (ofExcept _) fun source => ?_
    refine bind (read source) fun text => ?_
    exact bind (logged _) fun patch => pure _
  · exact fail .usage

theorem apply (options : Options) :
    Mirrors world filter (Action.apply options filter) (applyPatch options world.surroundings) := by
  refine bind (ofExcept _) fun (patchSource, documentSource) => ?_
  refine bind (read patchSource) fun patchText => ?_
  refine bind (read documentSource) fun documentText => ?_
  refine bind (logged _) fun patch => ?_
  refine bind (ofExcept _) fun document => ?_
  refine bind (logged _) fun _ => ?_
  refine bind (logged _) fun patched => ?_
  exact bind (logged _) fun _ => pure _

end Mirrors

namespace World

variable {File : Type}

theorem print_empty (world : World File) : world.print "" = world := by
  simp only [print, String.append_empty]

theorem addReport_empty (world : World File) : world.addReport "" = world := by
  simp only [addReport, String.append_empty]

variable [DecidableEq File]

theorem finish_deliver (world : World File) (options : Options) (report text : String) :
    finish (Action.deliver options text (world.addReport report)) =
      ((deliver options world.surroundings report text).exitCode,
        world.after (deliver options world.surroundings report text)) := by
  have hfault (path : String) :
      (world.addReport report).writeFault? path = world.surroundings.writeFault? path := rfl
  unfold Action.deliver deliver
  cases options.output with
  | none => rfl
  | some path =>
    simp only [hfault]
    cases world.surroundings.writeFault? path with
    | none => simp only [finish, after, print_empty]
    | some reason =>
      simp only [finish, after, print_empty, addReport_addReport, String.append_assoc]

/-- How a run goes on after an action that only reports. -/
theorem finish_bind_deliver {world : World File} {filter : LogFilter}
    {action : Action File String} {computation : Traced RunError String}
    (h : Mirrors world filter action computation) (options : Options) {outcome : Outcome}
    (houtcome : (match computation.outcome with
      | .ok text => deliver options world.surroundings (log filter computation.events) text
      | .error error => ⟨1, "", log filter computation.events ++ error.message ++ "\n", none⟩) =
        outcome) :
    finish ((action >>= Action.deliver options) world) =
      (outcome.exitCode, world.after outcome) := by
  have hrun := h ""
  rw [addReport_empty, String.empty_append] at hrun
  change finish (EStateM.bind action _ world) = _
  rw [EStateM.bind, hrun, ← houtcome]
  cases computation.outcome with
  | ok text => exact finish_deliver world options _ text
  | error error =>
    simp only [finish, after, print_empty, Action.ofExcept, addReport_addReport,
      String.append_assoc]

theorem finish_perform (world : World File) (options : Options) :
    finish (Action.perform options (.choose options.verbosity world.logSetting) world) =
      ((perform options world.surroundings).exitCode,
        world.after (perform options world.surroundings)) := by
  unfold Action.perform
  by_cases hcheck : options.has .check = true
  · rw [if_pos hcheck]
    apply finish_bind_deliver (.check options) options
    rw [perform, if_pos hcheck]
    rfl
  · rw [if_neg hcheck]
    apply finish_bind_deliver (.apply options) options
    rw [perform, if_neg hcheck]
    rfl

/-- A run as it happens, and the outcome that is a function of its surroundings. -/
theorem run_eq (world : World File) (command : List String) :
    world.run command =
      ((CommandLine.run command world.surroundings).exitCode,
        world.after (CommandLine.run command world.surroundings)) := by
  unfold run CommandLine.run
  cases Options.ofCommand? command with
  | none => simp only [after, print_empty, addReport_empty]
  | some options =>
    by_cases hhelp : options.has .help = true
    · simp only [if_pos hhelp, after, addReport_empty]
    · by_cases hversion : options.has .version = true
      · simp only [if_neg hhelp, if_pos hversion, after, addReport_empty]
      · simp only [if_neg hhelp, if_neg hversion]
        exact world.finish_perform options

end World

end JsonPatch.CommandLine
