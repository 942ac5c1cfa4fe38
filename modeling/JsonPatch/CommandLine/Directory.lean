import JsonPatch.CommandLine.Run

namespace JsonPatch.CommandLine

/-- A directory: the contents of its files by their paths. -/
structure Directory where
  files : List (String × String)

namespace Directory

inductive Fault where
  | missing
  | notADirectory
  | isADirectory
  | nameTooLong
  deriving DecidableEq

def Fault.reason : Fault → String
  | .missing => "No such file or directory (os error 2)"
  | .notADirectory => "Not a directory (os error 20)"
  | .isADirectory => "Is a directory (os error 21)"
  | .nameTooLong => "File name too long (os error 36)"

/-- What a path leads to: a directory, a file, or a name that a file can still be given. -/
inductive Place where
  | directory
  | file (name : String)
  | vacant (name : String)
  deriving DecidableEq

/-- The most bytes of one step of a path. -/
def longestStep : Nat := 255

/-- The most bytes of a path. -/
def longestPath : Nat := 4095

def isIdle (step : List Char) : Bool := step == [] || step == ['.']

def isBack (step : List Char) : Bool := step == ['.', '.']

def isTooLong (step : List Char) : Bool := longestStep < (String.ofList step).utf8ByteSize

/-- The steps of a file's path, idle ones left out. -/
def steps (path : String) : List (List Char) :=
  (Pointer.segments path.toList).filter fun step => !isIdle step

/-- Whether some steps lead to the directory itself or to one inside it. -/
def hasDirectory (directory : Directory) (taken : List (List Char)) : Bool :=
  taken.isEmpty || directory.files.any fun file =>
    taken.isPrefixOf (steps file.1) && taken.length < (steps file.1).length

/-- The place that some steps lead to, none of them idle or back. -/
def placeOf (directory : Directory) (taken : List (List Char)) : Place :=
  if directory.hasDirectory taken then .directory
  else match directory.files.find? fun file => steps file.1 == taken with
    | some file => .file file.1
    | none => .vacant (String.intercalate "/" (taken.map String.ofList))

/-- The place of a path that has left the directory: a directory above it, and no file. -/
def outside : List (List Char) → Except Fault Place
  | [] => .ok .directory
  | step :: rest =>
    if isIdle step || isBack step then outside rest
    else .error (if isTooLong step then .nameTooLong else .missing)

/-- Takes the steps of a path after those taken before. Each of them, idle ones too, begins in a
directory. -/
def follow (directory : Directory) (taken : List (List Char)) :
    List (List Char) → Except Fault Place
  | [] => .ok (directory.placeOf taken)
  | step :: rest =>
    match directory.placeOf taken with
    | .file _ => .error .notADirectory
    | .vacant _ => .error .missing
    | .directory =>
      if isIdle step then follow directory taken rest
      else if isBack step then
        if taken.isEmpty then outside rest else follow directory taken.dropLast rest
      else if isTooLong step then .error .nameTooLong
      else follow directory (taken ++ [step]) rest

/-- The place of the steps of a path, of which the first is empty if the path begins at the root. -/
def placeOfSteps (directory : Directory) : List (List Char) → Except Fault Place
  | [] :: rest => outside rest
  | steps => directory.follow [] steps

def place (directory : Directory) (path : String) : Except Fault Place :=
  if path.isEmpty then .error .missing
  else if longestPath < path.utf8ByteSize then .error .nameTooLong
  else directory.placeOfSteps (Pointer.segments path.toList)

def read (directory : Directory) (path : String) : Except String String :=
  match directory.place path with
  | .ok (.file name) => .ok ((directory.files.lookup name).getD "")
  | .ok (.vacant _) => .error Fault.missing.reason
  | .ok .directory => .error Fault.isADirectory.reason
  | .error fault => .error fault.reason

/-- The steps before the last that has a name. -/
def enclosing (steps : List (List Char)) : List (List Char) :=
  (steps.reverse.dropWhile List.isEmpty).tail.reverse

/-- Why a file cannot be written. A path that ends with a slash names a directory, whether it is
there or not. -/
def writeFault? (directory : Directory) (path : String) : Option String :=
  let found :=
    if path.endsWith "/" && path.utf8ByteSize ≤ longestPath then
      (directory.placeOfSteps (enclosing (Pointer.segments path.toList) ++ [[]])).map
        fun _ => Place.directory
    else directory.place path
  match found with
  | .ok .directory => some Fault.isADirectory.reason
  | .ok _ => none
  | .error fault => some fault.reason

def surroundings (directory : Directory) (input : String) (logSetting : Option String) :
    Surroundings :=
  ⟨directory.read, .ok input, directory.writeFault?, logSetting⟩

/-- The file that a run changes in a directory, with its new content. A file that keeps its content
is not changed. -/
def changed? (directory : Directory) (outcome : Outcome) : Option (String × String) := do
  let (path, content) ← outcome.written
  match directory.place path with
  | .ok (.file name) =>
    if directory.files.lookup name == some content then none else some (name, content)
  | .ok (.vacant name) => some (name, content)
  | _ => none

end Directory

end JsonPatch.CommandLine
