import JsonPatch.Json.Token

namespace JsonPatch

namespace Members

/-- Names ascend strictly, by code point, so objects with the same members are the same list. -/
def Ascending {α : Type} (members : List (String × α)) : Prop :=
  members.Pairwise fun a b => a.1 < b.1

/-- Sets a member: a value of that name is replaced, a new name takes its place in the order. -/
def insert {α : Type} (name : String) (value : α) : List (String × α) → List (String × α)
  | [] => [(name, value)]
  | (n, v) :: rest =>
    if name < n then (name, value) :: (n, v) :: rest
    else if name = n then (name, value) :: rest
    else (n, v) :: insert name value rest

def erase {α : Type} (name : String) (members : List (String × α)) : List (String × α) :=
  members.eraseP fun member => member.1 == name

/-- The members in the order of their names; of two with one name the later one stays. -/
def ofList {α : Type} (members : List (String × α)) : List (String × α) :=
  members.foldl (fun sorted member => insert member.1 member.2 sorted) []

end Members

/-- A value as JSON text denotes it. The members of an object ascend by name. -/
inductive Json where
  | null
  | bool (value : Bool)
  | number (value : Numeral)
  | string (value : String)
  | array (items : List Json)
  | object (members : List (String × Json))

namespace Json

/-- An object from members in any order. -/
def ofMembers (members : List (String × Json)) : Json := .object (Members.ofList members)

def ofNat (n : Nat) : Json := .number (.unsigned (UInt64.ofNat n))

mutual

/-- Whether a value can be read from a text: numbers in canonical form and names ascending,
throughout. -/
def Canonical : Json → Prop
  | .number n => n.Canonical
  | .array items => ItemsCanonical items
  | .object members => Members.Ascending members ∧ MembersCanonical members
  | _ => True

def ItemsCanonical : List Json → Prop
  | [] => True
  | item :: items => Canonical item ∧ ItemsCanonical items

def MembersCanonical : List (String × Json) → Prop
  | [] => True
  | (_, value) :: members => Canonical value ∧ MembersCanonical members

end

mutual

def tokens : Json → List Token
  | .null => [.null]
  | .bool b => [.bool b]
  | .number n => [.number n]
  | .string s => [.string s]
  | .array [] => [.beginArray, .endArray]
  | .array (item :: items) => .beginArray :: (tokens item ++ itemTokens items)
  | .object [] => [.beginObject, .endObject]
  | .object ((name, value) :: members) =>
    .beginObject :: .string name :: .nameSeparator :: (tokens value ++ memberTokens members)

/-- The elements after the first, each behind its separator, up to the end of the array. -/
def itemTokens : List Json → List Token
  | [] => [.endArray]
  | item :: items => .valueSeparator :: (tokens item ++ itemTokens items)

/-- The members after the first, each behind its separator, up to the end of the object. -/
def memberTokens : List (String × Json) → List Token
  | [] => [.endObject]
  | (name, value) :: members =>
    .valueSeparator :: .string name :: .nameSeparator :: (tokens value ++ memberTokens members)

end

/-- The text of a value without blanks. -/
def compact (value : Json) : String := String.ofList (value.tokens.flatMap Token.text)

def newLine (level : Nat) : List Char := '\n' :: List.replicate (2 * level) ' '

mutual

/-- A value over several lines, its own first character at the current place. -/
def lines (level : Nat) : Json → List Char
  | .array (item :: items) =>
    '[' :: (newLine (level + 1) ++ lines (level + 1) item ++ itemLines level items)
  | .object ((name, value) :: members) =>
    '{' :: (newLine (level + 1) ++ Token.stringText name ++ ": ".toList
      ++ lines (level + 1) value ++ memberLines level members)
  | .array [] => "[]".toList
  | .object [] => ['{', '}']
  | .null => Token.text .null
  | .bool b => Token.text (.bool b)
  | .number n => Token.text (.number n)
  | .string s => Token.text (.string s)

/-- The elements after the first and the end of the array. -/
def itemLines (level : Nat) : List Json → List Char
  | [] => newLine level ++ [']']
  | item :: items =>
    ',' :: (newLine (level + 1) ++ lines (level + 1) item ++ itemLines level items)

/-- The members after the first and the end of the object. -/
def memberLines (level : Nat) : List (String × Json) → List Char
  | [] => newLine level ++ ['}']
  | (name, value) :: members =>
    ',' :: (newLine (level + 1) ++ Token.stringText name ++ ": ".toList
      ++ lines (level + 1) value ++ memberLines level members)

end

/-- The text of a value with every element and member on a line of its own. -/
def pretty (value : Json) : String := String.ofList (lines 0 value)

/-- An open container at the place of the value being read: the elements before it, in reverse, or
the members before it with its own name. -/
inductive Frame where
  | array (items : List Json)
  | object (members : List (String × Json)) (name : String)

/-- What must come next. In `name` and `colon` the innermost object is not yet on the stack. -/
inductive Expected where
  | value
  | valueOrEnd
  | name (members : List (String × Json))
  | nameOrEnd
  | colon (members : List (String × Json)) (name : String)
  | separator (value : Json)

/-- A value that is being read: the open containers, innermost first. -/
structure Reading where
  frames : List Frame
  expected : Expected

/-- The most containers that may be open at once. -/
def maxDepth : Nat := 127

namespace Reading

def start : Reading := ⟨[], .value⟩

def beginValue (frames : List Frame) : Token → Option Reading
  | .null => some ⟨frames, .separator .null⟩
  | .bool b => some ⟨frames, .separator (.bool b)⟩
  | .number n => some ⟨frames, .separator (.number n)⟩
  | .string s => some ⟨frames, .separator (.string s)⟩
  | .beginArray => if frames.length < maxDepth then some ⟨.array [] :: frames, .valueOrEnd⟩ else none
  | .beginObject => if frames.length < maxDepth then some ⟨frames, .nameOrEnd⟩ else none
  | _ => none

/-- Takes the token after a value: another one is announced, or the innermost container ends. -/
def afterValue (value : Json) : List Frame → Token → Option Reading
  | .array items :: frames, .valueSeparator => some ⟨.array (value :: items) :: frames, .value⟩
  | .array items :: frames, .endArray =>
    some ⟨frames, .separator (.array (value :: items).reverse)⟩
  | .object members name :: frames, .valueSeparator =>
    some ⟨frames, .name (Members.insert name value members)⟩
  | .object members name :: frames, .endObject =>
    some ⟨frames, .separator (.object (Members.insert name value members))⟩
  | _, _ => none

def step (p : Reading) (token : Token) : Option Reading :=
  match p.expected, token with
  | .value, token => beginValue p.frames token
  | .valueOrEnd, .endArray => some ⟨p.frames.tail, .separator (.array [])⟩
  | .valueOrEnd, token => beginValue p.frames token
  | .name members, .string name => some ⟨p.frames, .colon members name⟩
  | .nameOrEnd, .string name => some ⟨p.frames, .colon [] name⟩
  | .nameOrEnd, .endObject => some ⟨p.frames, .separator (.object [])⟩
  | .colon members name, .nameSeparator => some ⟨.object members name :: p.frames, .value⟩
  | .separator value, token => afterValue value p.frames token
  | _, _ => none

/-- The value, if exactly one is read. -/
def result? : Reading → Option Json
  | ⟨[], .separator value⟩ => some value
  | _ => none

end Reading

def ofTokens? (tokens : List Token) : Option Json :=
  (tokens.foldlM Reading.step Reading.start).bind Reading.result?

/-- Reads a text. Of members with one name the last one counts, and containers nest at most
`maxDepth` deep. -/
def read? (text : String) : Option Json := (tokenize text.toList).bind ofTokens?

end Json

end JsonPatch
