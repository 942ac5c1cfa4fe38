import JsonPatch.Yaml.Token.Scalar

namespace JsonPatch.Yaml

/-- The characters of a tag. None stands for bytes that encode no character. -/
abbrev Tag := List (Option Char)

namespace Tag

def ofString (text : String) : Tag := text.toList.map some

/-- The text of a tag, unless some of its bytes encode no character. -/
def text? (tag : Tag) : Option String := (tag.mapM id).map String.ofList

/-- Whether a tag is local: it begins with an exclamation mark. -/
def isLocal (tag : Tag) : Bool := tag.head? == some (some '!')

/-- Drops the mark at the front, unless nothing else is left. -/
def dropMark (cs : List Char) : List Char :=
  match cs with
  | '!' :: c :: rest => c :: rest
  | cs => cs

/-- The name of a local tag, which is shown without up to two marks at the front. -/
def localName? (tag : Tag) : Option String :=
  if tag.isLocal then tag.text?.map fun text => String.ofList (dropMark (dropMark text.toList))
  else none

/-- How many bytes follow the first byte of a character; none if it can be no first byte. -/
def continuation? (byte : Nat) : Option Nat :=
  if byte < 0x80 then some 0
  else if byte < 0xc0 then none
  else if byte < 0xe0 then some 1
  else if byte < 0xf0 then some 2
  else if byte < 0xf8 then some 3
  else none

def leadingBits (byte follow : Nat) : Nat := if follow = 0 then byte else byte % (1 <<< (6 - follow))

/-- The character that some bytes encode, given the bits they hold. No character is encoded in more
bytes than it needs. -/
def encoded? (bytes bits : Nat) : Option Char :=
  (Quoted.character? bits).filter fun c => c.utf8Size = bytes

/-- Replaces bytes written as two hexadecimal digits by the characters they encode. `left` of the
`bytes` of a character are still to come, and `bits` holds those so far. -/
def decodeBytes (bytes left bits : Nat) : List Char → Option Tag
  | '%' :: a :: b :: cs => do
    let byte := (← Quoted.hexDigit? a) * 16 + (← Quoted.hexDigit? b)
    if left = 0 then
      let follow ← continuation? byte
      let bits := leadingBits byte follow
      if follow = 0 then return encoded? 1 bits :: (← decodeBytes 0 0 0 cs)
      else decodeBytes (follow + 1) follow bits cs
    else if byte / 64 = 2 then
      let bits := bits * 64 + byte % 64
      if left = 1 then return encoded? bytes bits :: (← decodeBytes 0 0 0 cs)
      else decodeBytes bytes (left - 1) bits cs
    else none
  | c :: cs => if left = 0 && c != '%' then (decodeBytes 0 0 0 cs).map (some c :: ·) else none
  | [] => if left = 0 then some [] else none

/-- Reads the characters of a tag, or of a part of one. A null character ends it, whatever comes
behind. -/
def read? (cs : List Char) : Option Tag :=
  (decodeBytes 0 0 0 cs).map fun tag => tag.takeWhile (· != some '\x00')

end Tag

/-- A token. Block starts and ends are not written; they follow from indentation. A scalar is `plain`
if it has no quotes and no block indicator. -/
inductive Token where
  | version (major minor : Nat)
  | tagDirective (handle : String) (leader : Tag)
  | documentStart
  | documentEnd
  | blockSequenceStart
  | blockMappingStart
  | blockEnd
  | flowSequenceStart
  | flowSequenceEnd
  | flowMappingStart
  | flowMappingEnd
  | blockEntry
  | flowEntry
  | key
  | value
  | alias (name : String)
  | anchor (name : String)
  | tag (handle : String) (suffix : Tag)
  | scalar (text : String) (plain : Bool)
  deriving DecidableEq

namespace Property

def takeClass (p : Char → Bool) (source : Source) : List Char × Source :=
  ((source.takeWhile fun spot => p spot.char).map Spot.char, source.dropWhile fun spot => p spot.char)

def name (source : Source) : Option (String × Source) :=
  let (word, rest) := takeClass isWordChar source
  let next := peek rest
  let closed := isGap next || ['?', ':', ',', ']', '}', '%', '@', '\u0060'].contains next
  if !word.isEmpty && closed then some (String.ofList word, rest) else none

/-- The characters of tags; inside angle brackets also those that delimit flows. -/
def isTagChar (verbatim : Bool) (c : Char) : Bool :=
  isWordChar c || ";/?:@&=+$.%!~*'()".toList.contains c || (verbatim && [',', '[', ']'].contains c)

/-- Reads tag characters. Unless the text may be empty, there must be one. -/
def tagText (verbatim mayBeEmpty : Bool) (source : Source) : Option (Tag × Source) := do
  let (text, rest) := takeClass (isTagChar verbatim) source
  if text.isEmpty && !mayBeEmpty then none else return (← Tag.read? text, rest)

/-- Reads a tag handle: an exclamation mark, or two with a word between them. A word that the second
mark does not close is given back with the rest. -/
def handle (source : Source) : Option (List Char × Source) :=
  if peek source = '!' then
    let (word, rest) := takeClass isWordChar source.tail
    if peek rest = '!' then some ('!' :: (word ++ ['!']), rest.tail) else some ('!' :: word, rest)
  else none

def isClosed (handle : List Char) : Bool := 1 < handle.length && handle.getLast? == some '!'

/-- Reads a tag in angle brackets, behind the opening one. -/
def verbatimTag (source : Source) : Option (Token × Source) := do
  let (text, rest) ← tagText true false source
  if peek rest != '>' then none else return (.tag "" text, rest.tail)

/-- Reads a tag that is not in brackets. A lone mark has an empty handle. -/
def shortTag (source : Source) : Option (Token × Source) := do
  let (mark, rest) ← handle source
  let (text, rest) ← tagText false (!isClosed mark) rest
  if isClosed mark then return (.tag (String.ofList mark) text, rest)
  else
    let suffix := mark.tail.map some ++ text
    if suffix.isEmpty then return (.tag "" (Tag.ofString "!"), rest)
    else return (.tag "!" suffix, rest)

/-- Reads a tag. A gap must follow, or a comma in a flow. -/
def tag (flow : Bool) (source : Source) : Option (Token × Source) := do
  let (token, rest) ←
    if peek source.tail = '<' then verbatimTag source.tail.tail else shortTag source
  if isGap (peek rest) || (flow && peek rest = ',') then return (token, rest) else none

/-- Reads a number of at most nine digits. -/
def versionNumber (source : Source) : Option (Nat × Source) :=
  let (ds, rest) := takeClass Char.isDigit source
  if ds.isEmpty || 9 < ds.length then none else some (Nat.ofDigitChars 10 ds 0, rest)

def version (source : Source) : Option (Token × Source) := do
  let (major, rest) ← versionNumber (skipBlanks source)
  if peek rest != '.' then none
  else
    let (minor, rest) ← versionNumber rest.tail
    return (.version major minor, rest)

def tagDirective (source : Source) : Option (Token × Source) := do
  let (mark, rest) ← handle (skipBlanks source)
  if mark != ['!'] && !isClosed mark then none
  else if !isBlank (peek rest) then none
  else
    let (text, rest) ← tagText true false (skipBlanks rest)
    if !isGap (peek rest) then none
    else return (.tagDirective (String.ofList mark) text, rest)

/-- Reads a directive behind its percent sign, with the line that it stands on. -/
def directive (source : Source) : Option (Token × Source) := do
  let (word, rest) := takeClass isWordChar source
  if word.isEmpty || !isGap (peek rest) then none
  else
    let (token, rest) ←
      if word = "YAML".toList then version rest
      else if word = "TAG".toList then tagDirective rest
      else none
    let rest := skipBlanks rest
    let rest := if peek rest = '#' then skipLine rest else rest
    if isBreak (peek rest) then return (token, rest.tail)
    else if isBreakOrEnd (peek rest) then return (token, rest)
    else none

end Property

end JsonPatch.Yaml
