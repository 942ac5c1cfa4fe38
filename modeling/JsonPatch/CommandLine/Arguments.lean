import JsonPatch.Node.Conversion

namespace JsonPatch.CommandLine

/-- The mark that joins the output option to its value. -/
def outputMark : List Char := ['-', 'o', '=']

/-- Drops every output mark at the front. -/
def dropOutputMarks : List Char → List Char
  | '-' :: 'o' :: '=' :: cs => dropOutputMarks cs
  | cs => cs

/-- The canonical form of an argument: long options have two dashes, and the output option is apart
from its value. -/
def canonicalArgument (argument : String) : List String :=
  if argument = "-help" ∨ argument = "-h" then ["--help"]
  else if argument = "-version" then ["--version"]
  else if argument = "-yaml" then ["--yaml"]
  else if argument = "-pretty" then ["--pretty"]
  else if argument = "-check" then ["--check"]
  else if outputMark.isPrefixOf argument.toList then
    ["-o", String.ofList (dropOutputMarks argument.toList)]
  else [argument]

/-- The canonical form of a command, whose first word is the name of the program. -/
def canonical : List String → List String
  | [] => []
  | program :: arguments => program :: arguments.flatMap canonicalArgument

inductive Flag where
  | help
  | version
  | yaml
  | pretty
  | check
  deriving DecidableEq

def Flag.ofName? (name : String) : Option Flag :=
  [("help", Flag.help), ("version", .version), ("yaml", .yaml), ("pretty", .pretty),
    ("check", .check)].lookup name

structure Options where
  flags : List Flag
  output : Option String
  verbosity : Nat
  inputs : List String

inductive Argument where
  | terminator
  | long (name : String) (value : Option String)
  | short (letters : List Char)
  | input (text : String)

/-- Tells what an argument is. A single dash is an input. -/
def Argument.ofString (text : String) : Argument :=
  match text.toList with
  | ['-', '-'] => .terminator
  | '-' :: '-' :: cs =>
    let name := String.ofList (cs.takeWhile (· ≠ '='))
    match cs.dropWhile (· ≠ '=') with
    | [] => .long name none
    | _ :: value => .long name (some (String.ofList value))
  | '-' :: c :: cs => .short (c :: cs)
  | _ => .input text

namespace Options

def empty : Options := ⟨[], none, 0, []⟩

def has (options : Options) (flag : Flag) : Bool := options.flags.contains flag

/-- Gives a flag, which may be done once. -/
def give (options : Options) (flag : Flag) : Option Options :=
  if options.has flag then none else some { options with flags := flag :: options.flags }

/-- Sets the output, which may be done once. The value must not be empty. -/
def setOutput (options : Options) (value : String) : Option Options :=
  if options.output.isSome || value.isEmpty then none else some { options with output := some value }

def addInputs (options : Options) (inputs : List String) : Options :=
  { options with inputs := options.inputs ++ inputs }

/-- Takes letters behind one dash. The output option takes the letters behind it as its value; the
result tells whether it still waits for one. -/
def takeLetters (options : Options) : List Char → Option (Options × Bool)
  | [] => some (options, false)
  | 'v' :: cs => takeLetters { options with verbosity := options.verbosity + 1 } cs
  | 'h' :: cs => do takeLetters (← options.give .help) cs
  | ['o'] => some (options, true)
  | 'o' :: '=' :: cs => do return (← options.setOutput (String.ofList cs), false)
  | 'o' :: cs => do return (← options.setOutput (String.ofList cs), false)
  | _ => none

/-- Takes a long option. The result tells whether the output option waits for its value. -/
def takeLong (options : Options) (name : String) (value : Option String) :
    Option (Options × Bool) :=
  match name, value with
  | "output", some value => do return (← options.setOutput value, false)
  | "output", none => some (options, true)
  | name, none => do return (← options.give (← Flag.ofName? name), false)
  | _, some _ => none

/-- Takes an argument other than the terminator. -/
def take (options : Options) : Argument → Option (Options × Bool)
  | .long name value => options.takeLong name value
  | .short letters => options.takeLetters letters
  | .input text => some (options.addInputs [text], false)
  | .terminator => none

def takeValue (options : Options) (argument : String) : Option Options :=
  match Argument.ofString argument with
  | .input value => options.setOutput value
  | _ => none

/-- Reads arguments in canonical form. Behind the terminator all are inputs. -/
def read (options : Options) : List String → Option Options
  | [] => some options
  | argument :: rest =>
    if argument = "--" then some (options.addInputs rest)
    else match options.take (Argument.ofString argument) with
      | none => none
      | some (options, false) => read options rest
      | some (options, true) =>
        match rest with
        | [] => none
        | value :: rest =>
          match options.takeValue value with
          | none => none
          | some options => read options rest

def ofCommand? (command : List String) : Option Options := empty.read (canonical command).tail

def format (options : Options) : Format := if options.has .yaml then .yaml else .json

end Options

end JsonPatch.CommandLine
