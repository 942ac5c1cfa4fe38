import JsonPatch.Yaml.Scalar
import JsonPatch.Yaml.Source
import JsonPatch.Json.Basic

namespace JsonPatch.Yaml

/-- How a string is written: bare, between single or double quotes, or as a block of lines. -/
inductive Style where
  | plain
  | single
  | double
  | literal
  deriving DecidableEq

namespace Style

def endsLine (c : Char) : Bool := isBreak c || c = '\r' || c = '\u0085'

def isWritable (c : Char) : Bool :=
  isAllowed c && c ≠ '\t' && c ≠ '\r' && c ≠ '\u0085' && c ≠ '\ufeff'

/-- The characters that begin something other than a plain scalar. -/
def opensOther (c : Char) : Bool := "#,[]\x7b\x7d&*!|>'\"%@\x60".toList.contains c

def neighbours (related : Char → Char → Bool) : List Char → Bool
  | a :: b :: cs => related a b || neighbours related (b :: cs)
  | _ => false

/-- Whether a text begins with a dash or a question mark that stands alone. -/
def opensEntry : List Char → Bool
  | c :: cs => (c = '-' || c = '?') && cs.head?.all isGap
  | [] => false

/-- Whether the characters of a text have a meaning of their own in a plain scalar. -/
def isMarked (cs : List Char) : Bool :=
  "---".toList.isPrefixOf cs || "...".toList.isPrefixOf cs
    || cs.head?.any opensOther || opensEntry cs
    || neighbours (fun a b => (a = ':' && isGap b) || (isGap a && b = '#')) cs
    || cs.getLast? == some ':'

def hasIndentedLine (cs : List Char) : Bool := neighbours (fun a b => endsLine a && b = ' ') cs

def hasTrailingSpace (cs : List Char) : Bool := neighbours (fun a b => a = ' ' && endsLine b) cs

/-- Whether a text can be written between single quotes. -/
def fitsSingle (cs : List Char) : Bool :=
  cs.all isWritable && !hasTrailingSpace cs && !hasIndentedLine cs

/-- Whether a text can be written as a block of lines. -/
def fitsLiteral (cs : List Char) : Bool :=
  cs.all isWritable && !hasTrailingSpace cs && cs.getLast? != some ' '

/-- Whether a text can be written bare, what it would read as left aside. -/
def fitsPlain (cs : List Char) : Bool :=
  fitsSingle cs && !cs.any endsLine && !isMarked cs && cs.head? != some ' '
    && cs.getLast? != some ' '

/-- Whether a bare text would read as something else, or looks like a number. -/
def isAmbiguous (text : String) : Bool :=
  match Scalar.plain? text with
  | some (.string _) => Scalar.isPadded text.toList
  | _ => true

def ofString (text : String) : Style :=
  let cs := text.toList
  if cs.contains '\n' then if fitsLiteral cs then .literal else .double
  else if !isAmbiguous text && fitsPlain cs then .plain
  else if fitsSingle cs then .single
  else .double

end Style

def escapeLetter? (c : Char) : Option Char :=
  [('\x00', '0'), ('\x07', 'a'), ('\x08', 'b'), ('\t', 't'), ('\n', 'n'), ('\x0b', 'v'),
    ('\x0c', 'f'), ('\r', 'r'), ('\x1b', 'e'), ('"', '"'), ('\\', '\\'), ('\u0085', 'N'),
    ('\u2028', 'L'), ('\u2029', 'P')].lookup c

/-- A number in capital hexadecimal digits, led by zeros up to a width. -/
def hexText (width n : Nat) : List Char :=
  let ds := (Nat.toDigits 16 n).map Char.toUpper
  List.replicate (width - ds.length) '0' ++ ds

def doubleQuotedChar (c : Char) : List Char :=
  match escapeLetter? c with
  | some letter => ['\\', letter]
  | none =>
    if Style.isWritable c then [c]
    else if c.toNat ≤ 0xff then '\\' :: 'x' :: hexText 2 c.toNat
    else if c.toNat ≤ 0xffff then '\\' :: 'u' :: hexText 4 c.toNat
    else '\\' :: 'U' :: hexText 8 c.toNat

def blanks (indent : Nat) : List Char := List.replicate indent ' '

/-- A text whose lines are indented; `fresh` tells whether it begins a line. Empty lines stay
empty. -/
def indented (indent : Nat) (fresh : Bool) : List Char → List Char
  | [] => []
  | c :: cs =>
    if Style.endsLine c then c :: indented indent true cs
    else (if fresh then blanks indent else []) ++ c :: indented indent false cs

/-- A text between single quotes, in which a quote is written twice. -/
def singleQuoted (indent : Nat) (cs : List Char) : List Char :=
  let doubled := cs.flatMap fun c => if c = '\x27' then [c, c] else [c]
  '\x27' :: (indented indent false doubled
    ++ (if cs.getLast?.any Style.endsLine then blanks indent else []) ++ ['\x27'])

/-- The mark of a block whose first line alone does not show how far it is indented. -/
def indentMark (cs : List Char) : List Char :=
  if cs.head?.any fun c => c = ' ' || Style.endsLine c then ['2'] else []

/-- The mark for the end of a block: lines are taken off for a text that ends inside a line, and
kept for one that ends with an empty line. -/
def endMarkOfBlock (cs : List Char) : List Char :=
  match cs.reverse with
  | [] => ['-']
  | last :: before =>
    if !Style.endsLine last then ['-']
    else if before.head?.all Style.endsLine then ['+']
    else []

/-- A text as a block of lines, up to the end of the last one. -/
def literalBlock (indent : Nat) (cs : List Char) : List Char :=
  '|' :: (indentMark cs ++ endMarkOfBlock cs ++ '\n' :: indented indent true cs)
    ++ (if cs.getLast?.any Style.endsLine then [] else ['\n'])

/-- A string up to the end of its last line; lines after the first are indented. -/
def stringText (indent : Nat) (text : String) : List Char :=
  let cs := text.toList
  match Style.ofString text with
  | .plain => cs ++ ['\n']
  | .single => singleQuoted indent cs ++ ['\n']
  | .double => '"' :: (cs.flatMap doubleQuotedChar ++ ['"', '\n'])
  | .literal => literalBlock indent cs

/-- The longest name in bytes that stands on the line of its value. -/
def longestName : Nat := 128

/-- Whether a name stands on one line with the colon. -/
def isSimpleKey (name : String) : Bool :=
  !name.toList.any Style.endsLine && name.utf8ByteSize ≤ longestName

/-- The name of a member and the mark of its value. A name that is not simple has a line for
itself. -/
def keyText (indent : Nat) (name : String) : List Char :=
  if isSimpleKey name then (stringText (indent + 2) name).dropLast ++ [':']
  else '?' :: ' ' :: (stringText (indent + 2) name ++ blanks indent ++ [':'])

/-- Whether the lines of a value begin below its name, and how far in they stand. Elements stand no
further in than the name. -/
def lineBelow? (indent : Nat) : Json → Option Nat
  | .array (_ :: _) => some indent
  | .object (_ :: _) => some (indent + 2)
  | _ => none

mutual

def lines (indent : Nat) : Json → List Char
  | .null => blanks indent ++ "null\n".toList
  | .bool b => blanks indent ++ (toString b).toList ++ ['\n']
  | .number n => blanks indent ++ (n.text "e").toList ++ ['\n']
  | .string s => blanks indent ++ stringText indent s
  | .array items => if items.isEmpty then blanks indent ++ "[]\n".toList else itemLines indent items
  | .object members =>
    if members.isEmpty then blanks indent ++ ['{', '}', '\n'] else memberLines indent members

/-- The elements of an array. The dash takes the place of indentation. -/
def itemLines (indent : Nat) : List Json → List Char
  | [] => []
  | item :: items =>
    blanks indent ++ '-' :: ' ' :: ((lines (indent + 2) item).drop (indent + 2)
      ++ itemLines indent items)

def memberLines (indent : Nat) : List (String × Json) → List Char
  | [] => []
  | (name, value) :: members =>
    let below := if isSimpleKey name then lineBelow? indent value else none
    let text := match below with
      | some inner => '\n' :: lines inner value
      | none => ' ' :: (lines (indent + 2) value).drop (indent + 2)
    blanks indent ++ keyText indent name ++ text ++ memberLines indent members

end

def print (value : Json) : String :=
  String.ofList (match lineBelow? 0 value with
    | some _ => lines 0 value
    | none => (lines 2 value).drop 2)

end JsonPatch.Yaml
