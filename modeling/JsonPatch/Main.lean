import JsonPatch.CommandLine.Run

namespace JsonPatch.CommandLine

/-- The name of the variable that holds the setting of the log. -/
def logVariable : String := "JPATCH_LOG"

/-- The number of an error of the system, which can come with its sign turned. -/
def errorNumber? (error : IO.Error) : Option UInt32 :=
  let code? := match error with
    | .noFileOrDirectory _ code _ => some code
    | .noSuchThing _ code _ => some code
    | .permissionDenied _ code _ => some code
    | .inappropriateType _ code _ => some code
    | .invalidArgument _ code _ => some code
    | _ => none
  code?.map fun code => if code < 0x80000000 then code else 0 - code

/-- What the numbers of errors stand for. -/
def errorTexts : List (UInt32 × String) :=
  [(2, "No such file or directory"), (13, "Permission denied"), (20, "Not a directory"),
    (21, "Is a directory"), (36, "File name too long")]

def reason (error : IO.Error) : String :=
  match error with
  | .userError _ => "stream did not contain valid UTF-8"
  | _ =>
    match errorNumber? error with
    | some number =>
      (errorTexts.lookup number).getD (toString error) ++ " (os error " ++ toString number ++ ")"
    | none => toString error

/-- Tries an action; a failure becomes its reason. -/
def attempt {α : Type} (action : IO α) : IO (Except String α) := do
  try return .ok (← action)
  catch error => return .error (reason error)

def readFiles (paths : List String) : IO (List (String × Except String String)) :=
  paths.mapM fun (path : String) => do
    let content ← attempt (IO.FS.readFile path)
    return (path, content)

def readInput : IO String := do (← IO.getStdin).readToEnd

def readsInput (options : Options) : Bool :=
  options.inputs.length == 1 && !options.has .check && !options.has .help && !options.has .version

def observe (command : List String) : IO Surroundings := do
  let options := (Options.ofCommand? command).getD Options.empty
  let files ← readFiles options.inputs
  let input ← if readsInput options then attempt readInput else pure (.ok "")
  let setting ← IO.getEnv logVariable
  return ⟨fun path => (files.lookup path).getD (.error "not read"), input, fun _ => none, setting⟩

/-- Runs a command. Whether its file can be written shows when it is. -/
def execute (command : List String) : IO Outcome := do
  let surroundings ← observe command
  let outcome := run command surroundings
  match outcome.written with
  | none => return outcome
  | some (path, content) =>
    match ← attempt (IO.FS.writeFile path content) with
    | .ok _ => return outcome
    | .error fault => return run command { surroundings with writeFault? := fun _ => some fault }

end JsonPatch.CommandLine

def main (arguments : List String) : IO UInt32 := do
  let outcome ← JsonPatch.CommandLine.execute ("jpatch" :: arguments)
  IO.eprint outcome.report
  IO.print outcome.output
  return UInt32.ofNat outcome.exitCode
