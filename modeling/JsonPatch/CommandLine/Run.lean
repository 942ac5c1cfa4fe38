import JsonPatch.CommandLine.Arguments
import JsonPatch.Patch.Application
import JsonPatch.Patch.Reading
import JsonPatch.Yaml.Printer

namespace JsonPatch.CommandLine

def version : String := "0.0.0"

def versionLine : String := "jpatch version " ++ version ++ "\n"

def helpLines : List String := [
  "Usage: jpatch [OPTION]... PATCH [DOCUMENT]",
  "Apply RFC 6902 JSON Patch documents.",
  "",
  "Applies PATCH to DOCUMENT and prints the result to STDOUT.",
  "When DOCUMENT is omitted the document is read from STDIN.",
  "",
  "Options:",
  "  -o=FILE      Write to FILE instead of STDOUT.",
  "  -yaml        Read and write YAML instead of JSON.",
  "  -pretty      Pretty-print the JSON output.",
  "  -check       Only validate PATCH and print its operation count.",
  "  -v           Increase log verbosity (repeatable). Logs go to STDERR and",
  "               can also be configured with the JPATCH_LOG variable.",
  "",
  "Examples:",
  "  jpatch patch.json doc.json",
  "  cat doc.json | jpatch patch.json",
  "  jpatch -o out.json patch.json doc.json",
  "  jpatch -check patch.json",
  "",
  "Version: " ++ version]

def helpText : String := String.join (helpLines.map fun line => line ++ "\n")

/-- What a log shows: reports of targets that begin in one way, up to a level, or none at all. -/
structure LogFilter where
  target : String
  level : Option Level
  deriving DecidableEq

namespace LogFilter

/-- The level of a name, in letters of either case; the inner `none` shows nothing. -/
def named? (text : String) : Option (Option Level) :=
  [("off", none), ("error", some .error), ("warn", some .warn), ("info", some .info),
    ("debug", some .debug), ("trace", some Level.trace)].lookup (text.map Char.toLower)

/-- The level of a number. Zero shows nothing, and each number up to five one level more. -/
def numbered? (n : Nat) : Option (Option Level) :=
  [none, some .error, some .warn, some .info, some .debug, some .trace][n]?

/-- The number that decimal digits spell, behind a plus sign or none. -/
def number? (cs : List Char) : Option Nat :=
  let ds := if cs.head? == some '+' then cs.tail else cs
  if ds.isEmpty || !ds.all Char.isDigit then none else some (Nat.ofDigitChars 10 ds 0)

def level? (text : String) : Option (Option Level) :=
  match number? text.toList with
  | some n => numbered? n
  | none => named? text

def isTargetChar (c : Char) : Bool := c.isAlphanum || c = '_' || c = ':' || c = '-'

/-- Reads a filter: a level for all targets, or a target, and a level behind an equals sign. A
target without a level shows all. -/
def parse? (text : String) : Option LogFilter :=
  let cs := text.toList
  let target := cs.takeWhile (· ≠ '=')
  if target.isEmpty || !target.all isTargetChar then none
  else match cs.dropWhile (· ≠ '=') with
    | [] =>
      match level? text with
      | some level => some ⟨"", level⟩
      | none => some ⟨text, some .trace⟩
    | ['='] => some ⟨String.ofList target, some .trace⟩
    | _ :: level => (level? (String.ofList level)).map fun level => ⟨String.ofList target, level⟩

def ofVerbosity : Nat → LogFilter
  | 0 => ⟨"", some .warn⟩
  | 1 => ⟨"", some .info⟩
  | 2 => ⟨"", some .debug⟩
  | _ => ⟨"", some .trace⟩

/-- The filter of a run: by its verbosity, if it has any, and else by a setting that can be read. -/
def choose (verbosity : Nat) (setting : Option String) : LogFilter :=
  if verbosity = 0 then (setting.bind parse?).getD (ofVerbosity 0) else ofVerbosity verbosity

def shows (filter : LogFilter) (event : Event) : Bool :=
  filter.target.toList.isPrefixOf event.target.toList
    && filter.level.any fun level => event.level.rank ≤ level.rank

end LogFilter

def detailText : String × Detail → String
  | (name, .count n) => " " ++ name ++ "=" ++ toString n
  | (name, .text s) => " " ++ name ++ "=" ++ Text.quoted s
  | (name, .phrase s) => " " ++ name ++ "=" ++ s

def logLine (event : Event) : String :=
  event.level.name ++ " " ++ event.target ++ ": " ++ event.message
    ++ String.join (event.details.map detailText) ++ "\n"

def log (filter : LogFilter) (events : List Event) : String :=
  String.join ((events.filter filter.shows).map logLine)

/-- What a run finds: files that can be read or not, its input, files that cannot be written, and
the setting of the log. A file or an input that cannot be used comes with the reason. -/
structure Surroundings where
  readFile : String → Except String String
  input : Except String String
  writeFault? : String → Option String
  logSetting : Option String

/-- What a run does: its exit code, what it prints and reports, and the file that it writes, with
the content. -/
structure Outcome where
  exitCode : Nat
  output : String
  report : String
  written : Option (String × String)
  deriving DecidableEq

inductive Source where
  | file (path : String)
  | input

def Source.name : Source → String
  | .file path => path
  | .input => "<stdin>"

inductive RunError where
  | usage
  | emptyPath
  | notRead (source : Source) (reason : String)
  | noPatch (path : String) (cause : PatchError)
  | noDocument (source : Source) (cause : ReadError)
  | notApplied (cause : ApplyError)
  | notWritten (path : String) (reason : String)

/-- A patch fault with its cause spelled out behind it. A fault of syntax needs no more words. -/
def patchFault (error : PatchError) : String :=
  match error with
  | .unreadable .json | .unreadable .yaml => error.message
  | .unreadable cause => error.message ++ ": " ++ cause.message
  | .invalidPointer cause => error.message ++ ": " ++ cause.message
  | _ => error.message

def RunError.message : RunError → String
  | .usage => helpText
  | .emptyPath => "expected file path; got empty string"
  | .notRead (.file path) reason => "failed to read " ++ path ++ ": " ++ reason
  | .notRead .input reason => "failed to read STDIN: " ++ reason
  | .noPatch path cause => "invalid patch " ++ path ++ ": " ++ patchFault cause
  | .noDocument source cause => "failed to parse document " ++ source.name ++ ": " ++ cause.message
  | .notApplied cause => "failed to apply patch: " ++ cause.message
  | .notWritten path reason => "failed to write output to " ++ path ++ ": " ++ reason

/-- The stages of a run, told apart by the words that open the message of a fault. -/
inductive Stage where
  | usage
  | path
  | reading
  | patch
  | document
  | application
  | writing

def Stage.opening : Stage → String
  | .usage => "Usage: "
  | .path => "expected file path"
  | .reading => "failed to read "
  | .patch => "invalid patch "
  | .document => "failed to parse document "
  | .application => "failed to apply patch: "
  | .writing => "failed to write output to "

def RunError.stage : RunError → Stage
  | .usage => .usage
  | .emptyPath => .path
  | .notRead .. => .reading
  | .noPatch .. => .patch
  | .noDocument .. => .document
  | .notApplied _ => .application
  | .notWritten .. => .writing

/-- No opening begins another. -/
theorem Stage.eq_of_opening_prefix {first second : Stage}
    (h : first.opening.toList <+: second.opening.toList) : first = second := by
  revert h
  cases first <;> cases second <;> simp [Stage.opening]

theorem usage_prefix_helpText : "Usage: ".toList <+: helpText.toList := by
  rw [helpText, helpLines, List.map_cons, String.join_cons, String.toList_append,
    String.toList_append]
  have hline : "Usage: ".toList <+: "Usage: jpatch [OPTION]... PATCH [DOCUMENT]".toList := by simp
  exact (hline.trans (List.prefix_append _ _)).trans (List.prefix_append _ _)

theorem RunError.opening_prefix_message (error : RunError) :
    error.stage.opening.toList <+: error.message.toList := by
  unfold message stage Stage.opening
  cases error with
  | usage => exact usage_prefix_helpText
  | notRead source reason => cases source <;> simp
  | _ => simp

/-- The message of a fault opens with the words of its stage, and with those of no other. -/
theorem RunError.opening_prefix_message_iff (error : RunError) (stage : Stage) :
    stage.opening.toList <+: error.message.toList ↔ stage = error.stage := by
  constructor
  · intro h
    rcases List.prefix_or_prefix_of_prefix h error.opening_prefix_message with h | h
    · exact Stage.eq_of_opening_prefix h
    · exact (Stage.eq_of_opening_prefix h).symm
  · rintro rfl
    exact error.opening_prefix_message

def fileSource (path : String) : Except RunError Source :=
  if path.isEmpty then .error .emptyPath else .ok (.file path)

/-- The sources of the patch and of the document, which is the input unless it is named. -/
def sources : List String → Except RunError (Source × Source)
  | [patch] => do return (← fileSource patch, .input)
  | [patch, document] => do return (← fileSource patch, ← fileSource document)
  | _ => .error .usage

def Surroundings.read (surroundings : Surroundings) (source : Source) : Except RunError String :=
  (match source with
    | .file path => surroundings.readFile path
    | .input => surroundings.input).mapError (.notRead source)

def Options.render (options : Options) (document : Node) : String :=
  if options.has .yaml then Yaml.print document.toJson
  else if options.has .pretty then document.toJson.pretty ++ "\n"
  else document.text ++ "\n"

def checkPatch (options : Options) (surroundings : Surroundings) : Traced RunError String :=
  match options.inputs with
  | [path] => do
    let source ← Traced.ofExcept (fileSource path)
    let text ← Traced.ofExcept (surroundings.read source)
    let patch ← (Patch.readText options.format text).mapError (.noPatch source.name)
    return toString patch.size ++ " operation(s)\n"
  | _ => Traced.fail .usage

/-- Applies a patch to a document. Both are read before either is looked into. -/
def applyPatch (options : Options) (surroundings : Surroundings) : Traced RunError String := do
  let (patchSource, documentSource) ← Traced.ofExcept (sources options.inputs)
  let patchText ← Traced.ofExcept (surroundings.read patchSource)
  let documentText ← Traced.ofExcept (surroundings.read documentSource)
  let patch ← (Patch.readText options.format patchText).mapError (.noPatch patchSource.name)
  let document ← Traced.ofExcept
    ((Node.read options.format documentText).mapError (.noDocument documentSource))
  Traced.report (.patchLoaded patch.size)
  let patched ← (patch.apply document).mapError .notApplied
  Traced.report (.patchApplied patch.size)
  return options.render patched

/-- Prints a text, or writes it to the file that the options name. -/
def deliver (options : Options) (surroundings : Surroundings) (report text : String) : Outcome :=
  match options.output with
  | none => ⟨0, text, report, none⟩
  | some path =>
    match surroundings.writeFault? path with
    | none => ⟨0, "", report, some (path, text)⟩
    | some reason => ⟨1, "", report ++ (RunError.notWritten path reason).message ++ "\n", none⟩

/-- Checks or applies a patch, as the options ask. -/
def perform (options : Options) (surroundings : Surroundings) : Outcome :=
  let result := if options.has .check then checkPatch options surroundings
    else applyPatch options surroundings
  let report := log (LogFilter.choose options.verbosity surroundings.logSetting) result.events
  match result.outcome with
  | .ok text => deliver options surroundings report text
  | .error error => ⟨1, "", report ++ error.message ++ "\n", none⟩

/-- The run of a command, whose first word is the name of the program. A command that cannot be read
does nothing. -/
def run (command : List String) (surroundings : Surroundings) : Outcome :=
  match Options.ofCommand? command with
  | none => ⟨2, "", "", none⟩
  | some options =>
    if options.has .help then ⟨0, helpText, "", none⟩
    else if options.has .version then ⟨0, versionLine, "", none⟩
    else perform options surroundings

end JsonPatch.CommandLine
