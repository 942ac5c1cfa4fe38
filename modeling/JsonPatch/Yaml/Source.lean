namespace JsonPatch.Yaml

/-- A character with its place, all counted from zero: lines and columns in characters, the offset in
bytes. -/
structure Spot where
  char : Char
  line : Nat
  column : Nat
  offset : Nat

/-- Text with places. Its last spot holds the end mark, which no text contains. -/
abbrev Source := List Spot

def endMark : Char := '\x00'

def isAllowed (c : Char) : Bool :=
  let n := c.toNat
  n == 0x09 || n == 0x0a || n == 0x0d || (0x20 ≤ n && n ≤ 0x7e) || n == 0x85
    || (0xa0 ≤ n && n ≤ 0xd7ff) || (0xe000 ≤ n && n ≤ 0xfffd) || 0x10000 ≤ n

/-- Makes one line feed of every way to end a line, the two separators of paragraphs excepted. -/
def joinBreaks : List Char → List Char
  | '\r' :: '\n' :: cs => '\n' :: joinBreaks cs
  | c :: cs => (if c = '\r' || c = '\u0085' then '\n' else c) :: joinBreaks cs
  | [] => []

/-- Line breaks: the line feed and the separators of lines and paragraphs. -/
def isBreak (c : Char) : Bool := c = '\n' || c = '\u2028' || c = '\u2029'

def isBlank (c : Char) : Bool := c = ' ' || c = '\t'

def isBreakOrEnd (c : Char) : Bool := isBreak c || c = endMark

/-- What separates tokens: blanks, breaks and the end. -/
def isGap (c : Char) : Bool := isBlank c || isBreakOrEnd c

def isWordChar (c : Char) : Bool := c.isAlphanum || c = '_' || c = '-'

def placed (line column offset : Nat) : List Char → Source
  | [] => [⟨endMark, line, column, offset⟩]
  | c :: cs =>
    ⟨c, line, column, offset⟩ ::
      if isBreak c then placed (line + 1) 0 (offset + c.utf8Size) cs
      else placed line (column + 1) (offset + c.utf8Size) cs

/-- The source of a text; none if a character is not allowed. -/
def source? (text : String) : Option Source :=
  let cs := text.toList
  if cs.all isAllowed then some (placed 0 0 0 (joinBreaks cs)) else none

def peek : Source → Char
  | [] => endMark
  | spot :: _ => spot.char

def column : Source → Nat
  | [] => 0
  | spot :: _ => spot.column

def skipBlanks (source : Source) : Source := source.dropWhile fun spot => isBlank spot.char

/-- Drops what is left of a line, up to its break. -/
def skipLine (source : Source) : Source := source.dropWhile fun spot => !isBreakOrEnd spot.char

/-- Whether a document marker comes next: three times one character, and then a gap. -/
def isMarker (mark : Char) : Source → Bool
  | a :: b :: c :: rest => a.char = mark && b.char = mark && c.char = mark && isGap (peek rest)
  | _ => false

/-- Whether a marker of a document's start or end stands at the beginning of a line. -/
def isDocumentMarker (source : Source) : Bool :=
  column source == 0 && (isMarker '-' source || isMarker '.' source)

/-- White space between two words of a scalar. `blanks` are those before the first break, `first` is
that break unless it was escaped, `more` are the breaks after it; lists are in reverse. -/
structure Gap where
  blanks : List Char
  broken : Bool
  first : Option Char
  more : List Char

namespace Gap

def none : Gap := ⟨[], false, Option.none, []⟩

def escapedBreak : Gap := ⟨[], true, Option.none, []⟩

def isEmpty (gap : Gap) : Bool := !gap.broken && gap.blanks.isEmpty

/-- Adds a blank. Behind a break it counts for nothing. -/
def addBlank (gap : Gap) (c : Char) : Gap :=
  if gap.broken then gap else { gap with blanks := c :: gap.blanks }

def addBreak (gap : Gap) (c : Char) : Gap :=
  if gap.broken then { gap with more := c :: gap.more } else ⟨[], true, some c, []⟩

/-- The text of the white space, in reverse: blanks stay, a lone line feed becomes a space, and a
line feed before other breaks goes away. -/
def folded (gap : Gap) : List Char :=
  if gap.broken then
    match gap.first with
    | some c => if c = '\n' then (if gap.more.isEmpty then [' '] else gap.more) else gap.more ++ [c]
    | Option.none => gap.more
  else gap.blanks

end Gap

end JsonPatch.Yaml
