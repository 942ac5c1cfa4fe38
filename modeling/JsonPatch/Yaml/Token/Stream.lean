import JsonPatch.Yaml.Token

namespace JsonPatch.Yaml

/-- A token that may be a key: its place, how many tokens came before it, and whether it must be one
because it stands where its block begins. -/
structure KeyCandidate where
  required : Bool
  before : Nat
  line : Nat
  column : Nat
  offset : Nat

/-- The state between two tokens, which are in reverse. `candidates` has one entry for the block
context and one for each open flow, innermost first. -/
structure Scanner where
  rest : Source
  flow : Nat
  /-- Minus one outside of all blocks. -/
  indent : Int
  outer : List Int
  keyAllowed : Bool
  candidates : List (Option KeyCandidate)
  tokens : List Token
  /-- The number of tokens. -/
  size : Nat
  done : Bool

namespace Scanner

def start (source : Source) : Scanner := ⟨source, 0, -1, [], true, [none], [], 0, false⟩

def emit (s : Scanner) (token : Token) : Scanner :=
  { s with tokens := token :: s.tokens, size := s.size + 1 }

def advance (s : Scanner) (count : Nat) : Scanner := { s with rest := s.rest.drop count }

def allowKey (s : Scanner) (allowed : Bool) : Scanner := { s with keyAllowed := allowed }

/-- Puts a token behind the first `before` ones. -/
def insert (s : Scanner) (before : Nat) (token : Token) : Scanner :=
  let after := s.size - before
  { s with tokens := s.tokens.take after ++ token :: s.tokens.drop after, size := s.size + 1 }

/-- Drops white space and comments. A new line of a block may begin with a key. Tabs are white space
only where they cannot be taken for indentation. -/
def skipGap (flow : Bool) (allowed comment : Bool) : Source → Source × Bool
  | [] => ([], allowed)
  | spot :: rest =>
    let c := spot.char
    if isBreak c then skipGap flow (allowed || !flow) false rest
    else if c = endMark then (spot :: rest, allowed)
    else if comment then skipGap flow allowed true rest
    else if c = '\ufeff' && spot.column == 0 then skipGap flow allowed false rest
    else if c = ' ' || (c = '\t' && (flow || !allowed)) then skipGap flow allowed false rest
    else if c = '#' then skipGap flow allowed true rest
    else (spot :: rest, allowed)

/-- Gives up a candidate that lies too far back: on an earlier line, or more than 1024 bytes away.
One that must be a key cannot be given up. -/
def expire (line offset : Nat) : Option KeyCandidate → Option (Option KeyCandidate)
  | none => some none
  | some candidate =>
    if candidate.line < line || candidate.offset + 1024 < offset then
      if candidate.required then none else some none
    else some (some candidate)

/-- Leaves the blocks that lie deeper than a column, and tells how many they are. -/
def closeBlocks (column : Int) (indent : Int) : List Int → Int × List Int × Nat
  | [] => (indent, [], 0)
  | next :: outer =>
    if column < indent then
      let (indent, outer, closed) := closeBlocks column next outer
      (indent, outer, closed + 1)
    else (indent, next :: outer, 0)

/-- Closes the blocks that lie deeper than a column, unless inside a flow. -/
def unroll (s : Scanner) (column : Int) : Scanner :=
  if s.flow ≠ 0 then s
  else
    let (indent, outer, closed) := closeBlocks column s.indent s.outer
    { s with
      indent, outer, tokens := List.replicate closed .blockEnd ++ s.tokens, size := s.size + closed }

/-- Opens a block at a column, if that is deeper than the current one and not in a flow. The start
of the block goes behind the first `before` tokens. -/
def roll (s : Scanner) (column : Nat) (before : Nat) (start : Token) : Scanner :=
  if s.flow = 0 && s.indent < column then
    { s with indent := column, outer := s.indent :: s.outer }.insert before start
  else s

def dropCandidate (s : Scanner) : Option Scanner :=
  match s.candidates with
  | [] => some s
  | candidate :: outer =>
    if candidate.any KeyCandidate.required then none
    else some { s with candidates := none :: outer }

/-- Takes the next token as a candidate, if a key may come here. -/
def saveCandidate (s : Scanner) : Option Scanner :=
  if s.keyAllowed then do
    let s ← s.dropCandidate
    match s.rest with
    | [] => some s
    | spot :: _ =>
      let required := s.flow == 0 && s.indent == spot.column
      let candidate := ⟨required, s.size, spot.line, spot.column, spot.offset⟩
      some { s with candidates := some candidate :: s.candidates.tail }
  else some s

/-- The end of the text closes everything. -/
def endStream (s : Scanner) : Option Scanner := do
  let s ← (s.unroll (-1)).dropCandidate
  return { s with keyAllowed := false, done := true }

def directive (s : Scanner) : Option Scanner := do
  let s ← (s.unroll (-1)).dropCandidate
  let (token, rest) ← Property.directive s.rest.tail
  return { (s.allowKey false).emit token with rest }

def documentMarker (s : Scanner) (token : Token) : Option Scanner := do
  let s ← (s.unroll (-1)).dropCandidate
  return ((s.allowKey false).emit token).advance 3

def openFlow (s : Scanner) (token : Token) : Option Scanner := do
  let s ← s.saveCandidate
  return { (s.allowKey true).emit token with
    flow := s.flow + 1, candidates := none :: s.candidates, rest := s.rest.tail }

def closeFlow (s : Scanner) (token : Token) : Option Scanner := do
  let s ← s.dropCandidate
  let candidates := if s.flow = 0 then s.candidates else s.candidates.tail
  return { (s.allowKey false).emit token with
    flow := s.flow - 1, candidates, rest := s.rest.tail }

def flowEntry (s : Scanner) : Option Scanner := do
  let s ← s.dropCandidate
  return ((s.allowKey true).emit .flowEntry).advance 1

/-- Opens a block at the current column, where a key must be allowed. -/
def rollHere (s : Scanner) (start : Token) : Option Scanner :=
  if s.flow ≠ 0 then some s
  else if s.keyAllowed then some (s.roll (column s.rest) s.size start)
  else none

def blockEntry (s : Scanner) : Option Scanner := do
  let s ← s.rollHere .blockSequenceStart
  let s ← s.dropCandidate
  return ((s.allowKey true).emit .blockEntry).advance 1

def explicitKey (s : Scanner) : Option Scanner := do
  let s ← s.rollHere .blockMappingStart
  let s ← s.dropCandidate
  return ((s.allowKey (s.flow == 0)).emit .key).advance 1

/-- Takes the colon before a value. The candidate, if there is one, was a key. -/
def mappingValue (s : Scanner) : Option Scanner :=
  match s.candidates with
  | some candidate :: outer =>
    let s := s.insert candidate.before .key
    let s := s.roll candidate.column candidate.before .blockMappingStart
    let s := { s with candidates := none :: outer }
    some (((s.allowKey false).emit .value).advance 1)
  | _ => do
    let s ← s.rollHere .blockMappingStart
    return ((s.allowKey (s.flow == 0)).emit .value).advance 1

def named (s : Scanner) (token : String → Token) : Option Scanner := do
  let s ← s.saveCandidate
  let (name, rest) ← Property.name s.rest.tail
  return { (s.allowKey false).emit (token name) with rest }

def tag (s : Scanner) : Option Scanner := do
  let s ← s.saveCandidate
  let (token, rest) ← Property.tag (s.flow != 0) s.rest
  return { (s.allowKey false).emit token with rest }

def blockScalar (s : Scanner) (folding : Bool) : Option Scanner := do
  let s ← s.dropCandidate
  let (text, rest) ← Block.read folding s.indent s.rest.tail
  return { (s.allowKey true).emit (.scalar (String.ofList text) false) with rest }

def quotedScalar (s : Scanner) (double : Bool) : Option Scanner := do
  let s ← s.saveCandidate
  let (text, rest) ←
    if double then Quoted.double .text [] .none s.rest.tail
    else Quoted.single false [] .none s.rest.tail
  return { (s.allowKey false).emit (.scalar (String.ofList text) false) with rest }

/-- Takes a plain scalar. If it ended at a line break, a key may follow. -/
def plainScalar (s : Scanner) : Option Scanner := do
  let s ← s.saveCandidate
  let (text, broken, rest) ← Plain.read (s.flow != 0) (s.indent + 1).toNat [] .none s.rest
  return { (s.allowKey broken).emit (.scalar (String.ofList text) true) with rest }

/-- Whether a character can begin a plain scalar, given the one after it. -/
def beginsPlain (flow : Bool) (c next : Char) : Bool :=
  if c = '-' then !isBlank next
  else if c = '?' || c = ':' then !flow && !isGap next
  else !isGap c && !",[]\x7b\x7d#&*!|>'\"%@\u0060".toList.contains c

/-- Takes the token that begins at the current character. -/
def dispatch (s : Scanner) : Option Scanner :=
  let c := peek s.rest
  let next := peek s.rest.tail
  let inFlow := s.flow != 0
  let lineStart := column s.rest == 0
  if c = endMark then s.endStream
  else if lineStart && c = '%' then s.directive
  else if lineStart && isMarker '-' s.rest then s.documentMarker .documentStart
  else if lineStart && isMarker '.' s.rest then s.documentMarker .documentEnd
  else if c = '[' then s.openFlow .flowSequenceStart
  else if c = '{' then s.openFlow .flowMappingStart
  else if c = ']' then s.closeFlow .flowSequenceEnd
  else if c = '}' then s.closeFlow .flowMappingEnd
  else if c = ',' then s.flowEntry
  else if c = '-' && isGap next then s.blockEntry
  else if c = '?' && (inFlow || isGap next) then s.explicitKey
  else if c = ':' && (inFlow || isGap next) then s.mappingValue
  else if c = '*' then s.named .alias
  else if c = '&' then s.named .anchor
  else if c = '!' then s.tag
  else if c = '|' && !inFlow then s.blockScalar false
  else if c = '>' && !inFlow then s.blockScalar true
  else if c = '\'' then s.quotedScalar false
  else if c = '"' then s.quotedScalar true
  else if beginsPlain inFlow c next then s.plainScalar
  else none

def step (s : Scanner) : Option Scanner := do
  let (rest, keyAllowed) := skipGap (s.flow != 0) s.keyAllowed false s.rest
  let s := { s with rest, keyAllowed }
  let (line, offset) := match rest with
    | [] => (0, 0)
    | spot :: _ => (spot.line, spot.offset)
  let candidates ← s.candidates.mapM (expire line offset)
  ({ s with candidates }.unroll (column rest)).dispatch

/-- Takes tokens up to the end of the text; each takes at least one character. -/
def run : Nat → Scanner → Option (List Token)
  | 0, _ => none
  | fuel + 1, s => do
    let s ← s.step
    if s.done then some s.tokens.reverse else run fuel s

end Scanner

def tokenize (text : String) : Option (List Token) := do
  let source ← source? text
  Scanner.run (source.length + 1) (Scanner.start source)

end JsonPatch.Yaml
