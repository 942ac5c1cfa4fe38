import JsonPatch.Node.Basic
import JsonPatch.Yaml.Composition

namespace JsonPatch

/-- A fault of a text, or of the value that it denotes, that keeps it from being a document. -/
inductive ReadError where
  | json
  | yaml
  | nonStringKey (key : Yaml)
  | unsupportedTag (tag : String)
  | notFinite (value : Double)

def Double.nonFiniteName : Double → String
  | .infinite true => "-inf"
  | .infinite false => "inf"
  | _ => "NaN"

def ReadError.message : ReadError → String
  | .json => "invalid JSON"
  | .yaml => "invalid YAML"
  | .nonStringKey key => "unsupported YAML key type: " ++ key.shown
  | .unsupportedTag tag => "unsupported YAML tag: !" ++ tag
  | .notFinite value => "non-finite number encountered: " ++ value.nonFiniteName

namespace Node

/-- The number of a numeral; one that is not finite is a fault. -/
def ofNumeral (n : Numeral) : Except ReadError Node :=
  match Number.ofNumeral n with
  | .ok n => .ok (number n)
  | .error value => .error (.notFinite value)

mutual

def ofJson : Json → Except ReadError Node
  | .null => .ok null
  | .bool b => .ok (bool b)
  | .number n => ofNumeral n
  | .string s => .ok (string s)
  | .array items => do .ok (array (← itemsOfJson items))
  | .object members => do .ok (object (← membersOfJson [] members))

def itemsOfJson : List Json → Except ReadError (List Node)
  | [] => .ok []
  | item :: items => do
    let item ← ofJson item
    .ok (item :: (← itemsOfJson items))

/-- `ofJson` for the members of an object, added to those before them. -/
def membersOfJson (before : List (String × Node)) :
    List (String × Json) → Except ReadError (List (String × Node))
  | [] => .ok before
  | (name, value) :: members => do
    let value ← ofJson value
    membersOfJson (Members.insert name value before) members

end

mutual

/-- The document of a YAML value. A tag is not looked behind. -/
def ofYaml : Yaml → Except ReadError Node
  | .null => .ok null
  | .bool b => .ok (bool b)
  | .number n => ofNumeral n
  | .string s => .ok (string s)
  | .sequence items => do .ok (array (← itemsOfYaml items))
  | .mapping entries => do .ok (object (← membersOfYaml [] entries))
  | .tagged tag _ => .error (.unsupportedTag tag)

def itemsOfYaml : List Yaml → Except ReadError (List Node)
  | [] => .ok []
  | item :: items => do
    let item ← ofYaml item
    .ok (item :: (← itemsOfYaml items))

/-- `ofYaml` for the entries of a mapping, added to those before them. A key is looked at before its
value. -/
def membersOfYaml (before : List (String × Node)) :
    List (Yaml × Yaml) → Except ReadError (List (String × Node))
  | [] => .ok before
  | (.string name, value) :: entries => do
    let value ← ofYaml value
    membersOfYaml (Members.insert name value before) entries
  | (key, _) :: _ => .error (.nonStringKey key)

end

mutual

def toJson : Node → Json
  | null => .null
  | bool b => .bool b
  | number n => .number n.toNumeral
  | string s => .string s
  | array items => .array (itemsToJson items)
  | object members => .object (membersToJson members)

def itemsToJson : List Node → List Json
  | [] => []
  | item :: items => toJson item :: itemsToJson items

def membersToJson : List (String × Node) → List (String × Json)
  | [] => []
  | (name, value) :: members => (name, toJson value) :: membersToJson members

end

end Node

inductive Format where
  | json
  | yaml
  deriving DecidableEq

namespace Node

def text (node : Node) : String := node.toJson.compact

def ofJsonText (text : String) : Except ReadError Node :=
  match Json.read? text with
  | some value => ofJson value
  | none => .error .json

def ofYamlText (text : String) : Except ReadError Node :=
  match Yaml.read? text with
  | some value => ofYaml value
  | none => .error .yaml

def read (format : Format) (text : String) : Except ReadError Node :=
  match format with
  | .json => ofJsonText text
  | .yaml => ofYamlText text

end Node

end JsonPatch
