import JsonPatch.Json.Basic

namespace JsonPatch

/-- A document or a part of one. The members of an object ascend by name. -/
inductive Node where
  | null
  | bool (value : Bool)
  | number (value : Number)
  | string (value : String)
  | array (items : List Node)
  | object (members : List (String × Node))

namespace Node

def kindName : Node → String
  | null => "null"
  | bool _ => "boolean"
  | number _ => "number"
  | string _ => "string"
  | array _ => "array"
  | object _ => "object"

def isNull : Node → Bool
  | null => true
  | _ => false

def string? : Node → Option String
  | string s => some s
  | _ => none

def items? : Node → Option (List Node)
  | array items => some items
  | _ => none

def members? : Node → Option (List (String × Node))
  | object members => some members
  | _ => none

mutual

/-- Whether the names of every object in the tree ascend. -/
def Ordered : Node → Prop
  | array items => ItemsOrdered items
  | object members => Members.Ascending members ∧ MembersOrdered members
  | _ => True

def ItemsOrdered : List Node → Prop
  | [] => True
  | item :: items => Ordered item ∧ ItemsOrdered items

def MembersOrdered : List (String × Node) → Prop
  | [] => True
  | (_, value) :: members => Ordered value ∧ MembersOrdered members

end

mutual

/-- Equality of documents: numbers compare by value, all else exactly. -/
def same : Node → Node → Bool
  | null, null => true
  | bool a, bool b => a == b
  | number a, number b => a.same b
  | string a, string b => a == b
  | array xs, array ys => sameItems xs ys
  | object xs, object ys => sameMembers xs ys
  | _, _ => false

def sameItems : List Node → List Node → Bool
  | [], [] => true
  | x :: xs, y :: ys => same x y && sameItems xs ys
  | _, _ => false

def sameMembers : List (String × Node) → List (String × Node) → Bool
  | [], [] => true
  | (m, x) :: xs, (n, y) :: ys => m == n && same x y && sameMembers xs ys
  | _, _ => false

end

end Node

end JsonPatch
