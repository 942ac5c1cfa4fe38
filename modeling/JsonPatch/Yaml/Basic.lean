import JsonPatch.Number.Basic
import JsonPatch.Text.Quoted

namespace JsonPatch

/-- A value as YAML text denotes it. Mappings keep the order of the text. A tag is held without the
mark before it, unless it is that mark alone. -/
inductive Yaml where
  | null
  | bool (value : Bool)
  | number (value : Numeral)
  | string (value : String)
  | sequence (items : List Yaml)
  | mapping (entries : List (Yaml × Yaml))
  | tagged (tag : String) (value : Yaml)

namespace Yaml

mutual

/-- A value spelled out with its kind, for messages. -/
def shown : Yaml → String
  | null => "Null"
  | bool b => "Bool(" ++ toString b ++ ")"
  | number n => "Number(" ++ n.text "e" ++ ")"
  | string s => "String(" ++ Text.quoted s ++ ")"
  | sequence items => "Sequence [" ++ String.intercalate ", " (shownItems items) ++ "]"
  | mapping entries => "Mapping \x7b" ++ String.intercalate ", " (shownEntries entries) ++ "\x7d"
  | tagged tag value =>
    "TaggedValue \x7b tag: !" ++ tag ++ ", value: " ++ shown value ++ " \x7d"

def shownItems : List Yaml → List String
  | [] => []
  | item :: items => shown item :: shownItems items

/-- The entries of a mapping. Keys that need no kind to be told apart are bare. -/
def shownEntries : List (Yaml × Yaml) → List String
  | [] => []
  | (key, value) :: entries => (shownKey key ++ ": " ++ shown value) :: shownEntries entries

def shownKey : Yaml → String
  | bool b => toString b
  | number n => n.text "e"
  | string s => Text.quoted s
  | key => shown key

end

end Yaml

/-- Equality of doubles as keys: by value, but a NaN equals itself. -/
def Double.sameKey : Double → Double → Bool
  | .finite x, .finite y => x.same y
  | .infinite a, .infinite b => a == b
  | .nan, .nan => true
  | _, _ => false

/-- Equality of numerals as keys: an integer never equals a double. -/
def Numeral.sameKey : Numeral → Numeral → Bool
  | .double x, .double y => x.sameKey y
  | a, b => a == b

namespace Yaml

mutual

/-- Equality of values. Mappings are equal when they have equal entries in any order. -/
def same : Yaml → Yaml → Bool
  | null, null => true
  | bool a, bool b => a == b
  | number a, number b => a.sameKey b
  | string a, string b => a == b
  | sequence xs, sequence ys => sameItems xs ys
  | mapping xs, mapping ys => xs.length == ys.length && entriesAmong xs ys
  | tagged s x, tagged t y => s == t && same x y
  | _, _ => false

def sameItems : List Yaml → List Yaml → Bool
  | [], [] => true
  | x :: xs, y :: ys => same x y && sameItems xs ys
  | _, _ => false

/-- Whether all entries of a mapping have an equal one in another. -/
def entriesAmong : List (Yaml × Yaml) → List (Yaml × Yaml) → Bool
  | [], _ => true
  | (key, value) :: entries, others =>
    others.any (fun other => same key other.1 && same value other.2) && entriesAmong entries others

end

end Yaml

end JsonPatch
