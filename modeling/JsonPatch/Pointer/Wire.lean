import JsonPatch.Text.Quoted
import JsonPatch.Json.Basic

namespace JsonPatch

namespace Pointer

def escapeTilde (c : Char) : List Char := if c = '~' then ['~', '0'] else [c]

def escapeSlash (c : Char) : List Char := if c = '/' then ['~', '1'] else [c]

/-- Escapes a token: first every tilde, then every slash. -/
def escapeChars (token : List Char) : List Char := (token.flatMap escapeTilde).flatMap escapeSlash

/-- Reads escapes from the left. A tilde that begins none is kept. -/
def unescapeChars : List Char → List Char
  | '~' :: '0' :: cs => '~' :: unescapeChars cs
  | '~' :: '1' :: cs => '/' :: unescapeChars cs
  | c :: cs => c :: unescapeChars cs
  | [] => []

/-- The spelling of a token. One with neither character is left as it is. -/
def escape (token : String) : String :=
  if token.toList.any fun c => c == '~' || c == '/' then String.ofList (escapeChars token.toList)
  else token

/-- The token of a spelling. One without a tilde is left as it is. -/
def unescape (spelling : String) : String :=
  if spelling.toList.contains '~' then String.ofList (unescapeChars spelling.toList) else spelling

/-- The texts between slashes. -/
def segments : List Char → List (List Char)
  | [] => [[]]
  | c :: cs =>
    if c = '/' then [] :: segments cs
    else match segments cs with
      | [] => [[c]]
      | segment :: rest => (c :: segment) :: rest

/-- The tokens as one text, each behind a slash. -/
def encode (tokens : List String) : String :=
  String.ofList (tokens.flatMap fun token => '/' :: escapeChars token.toList)

end Pointer

/-- A pointer. The text takes no part in comparisons. -/
structure Pointer where
  raw : String
  tokens : List String

/-- Why a text or a token list is no pointer. Each fault carries the text. -/
inductive PointerError where
  | missingDelimiter (raw : String)
  | emptyReferenceToken (raw : String)
  deriving DecidableEq

def PointerError.message : PointerError → String
  | .missingDelimiter raw => "value does not contain delimiter: " ++ Text.quoted raw
  | .emptyReferenceToken raw => "value contains an empty reference token: " ++ Text.quoted raw

namespace Pointer

/-- Two pointers are equal when their tokens are. -/
def same (p q : Pointer) : Bool := p.tokens == q.tokens

def root : Pointer := ⟨"", []⟩

/-- Reads a pointer: the empty text, or tokens that each follow a slash and are not empty. -/
def parse (raw : String) : Except PointerError Pointer :=
  match raw.toList with
  | [] => .ok root
  | c :: body =>
    if c = '/' then
      let parts := segments body
      if parts.any List.isEmpty then .error (.emptyReferenceToken raw)
      else .ok ⟨raw, parts.map fun part => String.ofList (unescapeChars part)⟩
    else .error (.missingDelimiter raw)

/-- The pointer over given tokens, spelled afresh. -/
def spell (tokens : List String) : Pointer := ⟨encode tokens, tokens⟩

/-- The pointer over given tokens, unless one is empty. -/
def ofTokens (tokens : List String) : Except PointerError Pointer :=
  if tokens.any String.isEmpty then .error (.emptyReferenceToken (encode tokens))
  else .ok (spell tokens)

/-- The place of a token inside the place of a pointer. -/
def child (p : Pointer) (token : String) : Except PointerError Pointer :=
  ofTokens (p.tokens ++ [token])

/-- The pointer without its last token. The root has no parent. -/
def parent? (p : Pointer) : Option Pointer :=
  if p.tokens.isEmpty then none else some (spell p.tokens.dropLast)

/-- The pointer without its first token. The root has none to drop. -/
def rest? (p : Pointer) : Option Pointer :=
  match p.tokens with
  | [] => none
  | _ :: tokens => some (spell tokens)

def last? (p : Pointer) : Option String := p.tokens.getLast?

def isRoot (p : Pointer) : Bool := p.tokens.isEmpty

/-- Whether the place lies strictly inside the place of another pointer. -/
def isInside (p q : Pointer) : Bool :=
  q.tokens.length < p.tokens.length && q.tokens.isPrefixOf p.tokens

/-- The wire form of a pointer: its text. -/
def toJson (p : Pointer) : Json := .string p.raw

def ofJsonText? (text : String) : Option Pointer :=
  match Json.read? text with
  | some (.string raw) => (parse raw).toOption
  | _ => none

end Pointer

end JsonPatch
