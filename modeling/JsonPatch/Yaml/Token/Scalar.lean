import JsonPatch.Yaml.Source

namespace JsonPatch.Yaml

namespace Plain

/-- Whether a character at its place ends a plain scalar: a colon before a gap, or in a flow an
indicator of the flow. -/
def endsAt (flow : Bool) (c next : Char) : Bool :=
  (c = ':' && isGap next) || (flow && [',', '[', ']', '{', '}'].contains c)

/-- Whether a colon in a flow touches an indicator, which is refused. -/
def isTouching (flow : Bool) (c next : Char) : Bool :=
  flow && c = ':' && [',', '?', '[', ']', '{', '}'].contains next

/-- Reads a plain scalar. Lines after the first must reach column `indent`, except in a flow. Gives
the text, whether breaks follow it, and the source behind them. -/
def read (flow : Bool) (indent : Nat) (seen : List Char) (gap : Gap) :
    Source → Option (List Char × Bool × Source)
  | [] => some (seen.reverse, gap.broken, [])
  | spot :: rest =>
    let c := spot.char
    let done := some (seen.reverse, gap.broken, spot :: rest)
    if isBlank c then
      if gap.broken && spot.column < indent && c = '\t' then none
      else read flow indent seen (gap.addBlank c) rest
    else if isBreak c then read flow indent seen (gap.addBreak c) rest
    else if c = endMark || isDocumentMarker (spot :: rest) then done
    else if !gap.isEmpty && (c = '#' || (!flow && spot.column < indent)) then done
    else if isTouching flow c (peek rest) then none
    else if endsAt flow c (peek rest) then done
    else read flow indent (c :: (gap.folded ++ seen)) .none rest

end Plain

namespace Quoted

/-- What is being read inside double quotes: plain text, the character after a backslash, or the
digits of a character number, so many of them left. -/
inductive Mode where
  | text
  | escape
  | code (left value : Nat)

def escaped? (c : Char) : Option Char :=
  match c with
  | '0' => some '\x00'
  | 'a' => some '\x07'
  | 'b' => some '\x08'
  | 't' => some '\t'
  | '\t' => some '\t'
  | 'n' => some '\n'
  | 'v' => some '\x0b'
  | 'f' => some '\x0c'
  | 'r' => some '\r'
  | 'e' => some '\x1b'
  | ' ' => some ' '
  | '"' => some '"'
  | '/' => some '/'
  | '\\' => some '\\'
  | 'N' => some '\u0085'
  | '_' => some '\u00a0'
  | 'L' => some '\u2028'
  | 'P' => some '\u2029'
  | _ => none

/-- How many digits the number behind an escape letter has. -/
def codeLength? (c : Char) : Option Nat :=
  match c with
  | 'x' => some 2
  | 'u' => some 4
  | 'U' => some 8
  | _ => none

def hexDigit? (c : Char) : Option Nat :=
  if c.isDigit then some (c.toNat - '0'.toNat)
  else if 'a' ≤ c ∧ c ≤ 'f' then some (c.toNat - 'a'.toNat + 10)
  else if 'A' ≤ c ∧ c ≤ 'F' then some (c.toNat - 'A'.toNat + 10)
  else none

def character? (n : Nat) : Option Char := if n.isValidChar then some (Char.ofNat n) else none

/-- Reads up to the closing double quote; `seen` is the text so far, in reverse. -/
def double (mode : Mode) (seen : List Char) (gap : Gap) : Source → Option (List Char × Source)
  | [] => none
  | spot :: rest =>
    let c := spot.char
    match mode with
    | .text =>
      if c = endMark then none
      else if isBlank c then double .text seen (gap.addBlank c) rest
      else if isBreak c then double .text seen (gap.addBreak c) rest
      else if isDocumentMarker (spot :: rest) then none
      else
        let seen := gap.folded ++ seen
        if c = '"' then some (seen.reverse, rest)
        else if c = '\\' then double .escape seen .none rest
        else double .text (c :: seen) .none rest
    | .escape =>
      if isBreak c then double .text seen .escapedBreak rest
      else match escaped? c, codeLength? c with
        | some e, _ => double .text (e :: seen) .none rest
        | none, some n => double (.code n 0) seen .none rest
        | none, none => none
    | .code left value =>
      match hexDigit? c with
      | none => none
      | some d =>
        let value := value * 16 + d
        if 1 < left then double (.code (left - 1) value) seen .none rest
        else match character? value with
          | some e => double .text (e :: seen) .none rest
          | none => none

/-- Reads up to the closing single quote. `quote` tells that a quote was just read, which ends the
text unless another one follows. -/
def single (quote : Bool) (seen : List Char) (gap : Gap) : Source → Option (List Char × Source)
  | [] => none
  | spot :: rest =>
    let c := spot.char
    if quote then
      if c = '\'' then single false ('\'' :: seen) .none rest
      else some (seen.reverse, spot :: rest)
    else if c = endMark then none
    else if isBlank c then single false seen (gap.addBlank c) rest
    else if isBreak c then single false seen (gap.addBreak c) rest
    else if isDocumentMarker (spot :: rest) then none
    else
      let seen := gap.folded ++ seen
      if c = '\'' then single true seen .none rest
      else single false (c :: seen) .none rest

end Quoted

namespace Block

/-- What becomes of the breaks at the end: all are dropped, the first stays, or all stay. -/
inductive Chomping where
  | strip
  | clip
  | keep
  deriving DecidableEq

def chomping? (c : Char) : Option Chomping :=
  if c = '-' then some .strip else if c = '+' then some .keep else none

/-- Reads a digit other than zero. -/
def increment? (c : Char) : Option Nat :=
  if c.isDigit && c != '0' then some (c.toNat - '0'.toNat) else none

/-- Reads the chomping and the indentation behind the indicator, in either order. Zero stands for an
indentation that is not given. -/
def header (source : Source) : Option (Chomping × Nat × Source) :=
  let c := peek source
  match chomping? c with
  | some chomping =>
    let rest := source.tail
    if (peek rest).isDigit then (increment? (peek rest)).map fun n => (chomping, n, rest.tail)
    else some (chomping, 0, rest)
  | none =>
    if c.isDigit then
      (increment? c).map fun n =>
        let rest := source.tail
        match chomping? (peek rest) with
        | some chomping => (chomping, n, rest.tail)
        | none => (.clip, n, rest)
    else some (.clip, 0, source)

/-- Drops the rest of the header line: blanks, and perhaps a comment. -/
def skipHeaderLine (source : Source) : Option Source :=
  let source := skipBlanks source
  let source := if peek source = '#' then skipLine source else source
  if isBreak (peek source) then some source.tail
  else if isBreakOrEnd (peek source) then some source
  else none

/-- A block scalar in the making, its texts in reverse. `last` is the break after the last line, and
`more` are the breaks after that. -/
structure Draft where
  /-- Zero until the first line shows it. -/
  indent : Nat
  /-- The farthest column reached so far. -/
  deepest : Nat
  text : List Char
  last : List Char
  more : List Char
  blankLine : Bool
  inLine : Bool

def Draft.start (indent : Nat) : Draft := ⟨indent, 0, [], [], [], false, false⟩

/-- Begins a line whose first character is given. Folding joins it to the line before, unless one of
them begins with a blank. -/
def Draft.beginLine (draft : Draft) (folding : Bool) (c : Char) : Draft :=
  let joins := folding && draft.last == ['\n'] && !draft.blankLine && !isBlank c
  let text := if joins then (if draft.more.isEmpty then ' ' :: draft.text else draft.text)
    else draft.last ++ draft.text
  { draft with
    text := c :: (draft.more ++ text), last := [], more := [], blankLine := isBlank c, inLine := true }

/-- The text, its last breaks treated as asked for. -/
def Draft.finish (draft : Draft) (chomping : Chomping) : List Char :=
  let text := if chomping = .strip then draft.text else draft.last ++ draft.text
  (if chomping = .keep then draft.more ++ text else text).reverse

/-- Reads lines as long as they reach the indentation, which is at least `least`. -/
def lines (folding : Bool) (chomping : Chomping) (least : Nat) (draft : Draft) :
    Source → Option (List Char × Source)
  | [] => some (draft.finish chomping, [])
  | spot :: rest =>
    let c := spot.char
    if draft.inLine then
      if isBreak c then
        lines folding chomping least { draft with last := [c], deepest := 0, inLine := false } rest
      else if c = endMark then some (draft.finish chomping, spot :: rest)
      else lines folding chomping least { draft with text := c :: draft.text } rest
    else
      let indenting := draft.indent == 0 || spot.column < draft.indent
      if indenting && c = ' ' then lines folding chomping least draft rest
      else if indenting && c = '\t' then none
      else
        let deepest := max draft.deepest spot.column
        if isBreak c then
          lines folding chomping least { draft with deepest, more := c :: draft.more } rest
        else
          let indent := if draft.indent == 0 then max deepest least else draft.indent
          let draft := { draft with indent, deepest }
          if spot.column == indent && c != endMark then
            lines folding chomping least (draft.beginLine folding c) rest
          else some (draft.finish chomping, spot :: rest)

/-- Reads a block scalar behind its indicator. `parent` is the indentation of the block around it,
minus one for none. -/
def read (folding : Bool) (parent : Int) (source : Source) : Option (List Char × Source) := do
  let (chomping, increment, rest) ← header source
  let rest ← skipHeaderLine rest
  let indent := if increment = 0 then 0 else (max parent 0).toNat + increment
  lines folding chomping (max (parent + 1) 1).toNat (.start indent) rest

end Block

end JsonPatch.Yaml
