import JsonPatch.Yaml.Token

namespace JsonPatch.Yaml

/-- What is written in front of a node: its tag in full, and the number of its anchor. -/
structure Properties where
  tag : Option Tag
  anchor : Option Nat
  deriving DecidableEq

/-- A node as written. An alias names the number of an anchor. -/
inductive Tree where
  | alias (anchor : Nat)
  | scalar (properties : Properties) (text : String) (plain : Bool)
  | sequence (properties : Properties) (items : List Tree)
  | mapping (properties : Properties) (entries : List (Tree × Tree))

def Properties.none : Properties := ⟨Option.none, Option.none⟩

/-- The node that is left out. -/
def Tree.empty : Tree := .scalar .none "" true

/-- The state between two nodes: the tokens to come, the anchors with their numbers, and the tag
handles with what they stand for. -/
structure Cursor where
  tokens : List Token
  anchors : List (String × Nat)
  handles : List (String × Tag)

namespace Cursor

def defaultHandles : List (String × Tag) :=
  [("!", Tag.ofString "!"), ("!!", Tag.ofString "tag:yaml.org,2002:")]

def skip (c : Cursor) : Cursor := { c with tokens := c.tokens.tail }

def sees (c : Cursor) (expected : List Token) : Bool :=
  match c.tokens with
  | [] => false
  | token :: _ => expected.contains token

/-- Defines an anchor. Its number is how many names there are already, so a name that is defined
again shares its new number with the next name. -/
def define (c : Cursor) (name : String) : Cursor × Nat :=
  let number := c.anchors.length
  let others := c.anchors.filter fun anchor => anchor.1 != name
  ({ c with anchors := (name, number) :: others }, number)

def fullTag (c : Cursor) (handle : String) (suffix : Tag) : Option Tag :=
  if handle.isEmpty then some suffix
  else (c.handles.lookup handle).map fun start => start ++ suffix

def takeTag (c : Cursor) : Option (Option Tag × Cursor) :=
  match c.tokens with
  | .tag handle suffix :: _ => do return (some (← c.fullTag handle suffix), c.skip)
  | _ => some (none, c)

def takeAnchor (c : Cursor) : Option Nat × Cursor :=
  match c.tokens with
  | .anchor name :: _ =>
    let (c, n) := c.skip.define name
    (some n, c)
  | _ => (none, c)

/-- Takes the properties of a node, in either order. -/
def takeProperties (c : Cursor) : Option (Properties × Cursor) := do
  match c.takeAnchor with
  | (some anchor, c) =>
    let (tag, c) ← c.takeTag
    return (⟨tag, some anchor⟩, c)
  | (none, c) =>
    let (tag, c) ← c.takeTag
    let (anchor, c) := c.takeAnchor
    return (⟨tag, anchor⟩, c)

mutual

/-- Reads a node. `inBlock` says whether a block may begin here, and `flat` whether the dashes of a
sequence may stand without a block of their own. Fuel bounds the calls. -/
def node : Nat → (inBlock flat : Bool) → Cursor → Option (Tree × Cursor)
  | 0, _, _, _ => none
  | fuel + 1, inBlock, flat, c =>
    match c.tokens with
    | .alias name :: _ => (c.anchors.lookup name).map fun number => (.alias number, c.skip)
    | _ => do
      let (properties, c) ← c.takeProperties
      match c.tokens with
      | .scalar text plain :: _ => return (.scalar properties text plain, c.skip)
      | .flowSequenceStart :: _ =>
        let (items, c) ← flowItems fuel true c.skip
        return (.sequence properties items, c)
      | .flowMappingStart :: _ =>
        let (entries, c) ← flowEntries fuel true c.skip
        return (.mapping properties entries, c)
      | token :: _ =>
        if flat && token = .blockEntry then
          let (items, c) ← flatItems fuel c
          return (.sequence properties items, c)
        else if inBlock && token = .blockSequenceStart then
          let (items, c) ← blockItems fuel c.skip
          return (.sequence properties items, c)
        else if inBlock && token = .blockMappingStart then
          let (entries, c) ← blockEntries fuel c.skip
          return (.mapping properties entries, c)
        else if properties = .none then none
        else return (.scalar properties "" true, c)
      | [] => if properties = .none then none else some (.scalar properties "" true, c)

/-- Reads a node of a block, unless one of the given tokens shows that it is left out. -/
def blockNode : Nat → (flat : Bool) → List Token → Cursor → Option (Tree × Cursor)
  | 0, _, _, _ => none
  | fuel + 1, flat, absent, c => if c.sees absent then some (.empty, c) else node fuel true flat c

/-- Reads the elements of a sequence that is a block of its own. -/
def blockItems : Nat → Cursor → Option (List Tree × Cursor)
  | 0, _ => none
  | fuel + 1, c =>
    match c.tokens with
    | .blockEntry :: _ => do
      let (item, c) ← blockNode fuel false [.blockEntry, .blockEnd] c.skip
      let (items, c) ← blockItems fuel c
      return (item :: items, c)
    | .blockEnd :: _ => some ([], c.skip)
    | _ => none

/-- Reads the elements of a sequence whose dashes stand at the column of the keys around it. -/
def flatItems : Nat → Cursor → Option (List Tree × Cursor)
  | 0, _ => none
  | fuel + 1, c =>
    match c.tokens with
    | .blockEntry :: _ => do
      let (item, c) ← blockNode fuel false [.blockEntry, .key, .value, .blockEnd] c.skip
      let (items, c) ← flatItems fuel c
      return (item :: items, c)
    | _ => some ([], c)

def blockEntries : Nat → Cursor → Option (List (Tree × Tree) × Cursor)
  | 0, _ => none
  | fuel + 1, c =>
    match c.tokens with
    | .key :: _ => do
      let (key, c) ← blockNode fuel true [.key, .value, .blockEnd] c.skip
      let (value, c) ← blockValue fuel c
      let (entries, c) ← blockEntries fuel c
      return ((key, value) :: entries, c)
    | .blockEnd :: _ => some ([], c.skip)
    | _ => none

/-- Reads the value of an entry of a block mapping, which may be left out with its colon. -/
def blockValue : Nat → Cursor → Option (Tree × Cursor)
  | 0, _ => none
  | fuel + 1, c =>
    if c.sees [.value] then blockNode fuel true [.key, .value, .blockEnd] c.skip
    else some (.empty, c)

/-- Reads the elements of a flow sequence. An element that begins like a key is a mapping of one
entry. -/
def flowItems : Nat → (first : Bool) → Cursor → Option (List Tree × Cursor)
  | 0, _, _ => none
  | fuel + 1, first, c =>
    if c.sees [.flowSequenceEnd] then some ([], c.skip)
    else do
      let c ← if first then some c else if c.sees [.flowEntry] then some c.skip else none
      if c.sees [.flowSequenceEnd] then return ([], c.skip)
      else
        let (item, c) ←
          if c.sees [.key] then flowPair fuel c.skip else node fuel false false c
        let (items, c) ← flowItems fuel false c
        return (item :: items, c)

/-- Reads the one entry of a mapping inside a flow sequence. When the key is left out, the token in
its place is dropped. -/
def flowPair : Nat → Cursor → Option (Tree × Cursor)
  | 0, _ => none
  | fuel + 1, c => do
    let (key, c) ←
      if c.sees [.value, .flowEntry, .flowSequenceEnd] then some (.empty, c.skip)
      else node fuel false false c
    let (value, c) ←
      if c.sees [.value] then
        let c := c.skip
        if c.sees [.flowEntry, .flowSequenceEnd] then some (.empty, c) else node fuel false false c
      else some (.empty, c)
    return (.mapping .none [(key, value)], c)

def flowEntries : Nat → (first : Bool) → Cursor → Option (List (Tree × Tree) × Cursor)
  | 0, _, _ => none
  | fuel + 1, first, c =>
    if c.sees [.flowMappingEnd] then some ([], c.skip)
    else do
      let c ← if first then some c else if c.sees [.flowEntry] then some c.skip else none
      if c.sees [.flowMappingEnd] then return ([], c.skip)
      else
        let (entry, c) ← flowEntry fuel c
        let (entries, c) ← flowEntries fuel false c
        return (entry :: entries, c)

/-- Reads an entry of a flow mapping. A value needs a key mark before it. -/
def flowEntry : Nat → Cursor → Option ((Tree × Tree) × Cursor)
  | 0, _ => none
  | fuel + 1, c =>
    if c.sees [.key] then do
      let c := c.skip
      let (key, c) ←
        if c.sees [.value, .flowEntry, .flowMappingEnd] then some (.empty, c)
        else node fuel false false c
      if c.sees [.value] then
        let c := c.skip
        if c.sees [.flowEntry, .flowMappingEnd] then return ((key, .empty), c)
        else
          let (value, c) ← node fuel false false c
          return ((key, value), c)
      else return ((key, .empty), c)
    else do
      let (key, c) ← node fuel false false c
      return ((key, .empty), c)

end

/-- Takes the directives before a document: at most one version, which must be known, and handles
that differ. -/
def directives (versioned : Bool) (handles : List (String × Tag)) :
    List Token → Option (List (String × Tag) × List Token)
  | .version major minor :: tokens =>
    if versioned || major ≠ 1 || (minor ≠ 1 && minor ≠ 2) then none
    else directives true handles tokens
  | .tagDirective handle leader :: tokens =>
    if (handles.lookup handle).isSome then none
    else directives versioned ((handle, leader) :: handles) tokens
  | tokens => some (handles, tokens)

/-- Whether a token announces a document: a directive or a start marker. -/
def announces : Token → Bool
  | .version .. | .tagDirective .. | .documentStart => true
  | _ => false

/-- Reads a document behind its start marker, which may be empty. -/
def explicitDocument (fuel : Nat) (c : Cursor) : Option (Tree × Cursor) :=
  match c.tokens with
  | [] => some (.empty, c)
  | token :: _ =>
    if announces token || token = .documentEnd then some (.empty, c) else node fuel true false c

end Cursor

/-- The document that a list of tokens spells, none if the list is empty. After it only end markers
may come. -/
def Tree.ofTokens? (tokens : List Token) : Option (Option Tree) := do
  let fuel := 4 * tokens.length + 4
  match tokens with
  | [] => return none
  | token :: _ =>
    let (tree, c) ←
      if Cursor.announces token then do
        let (handles, rest) ← Cursor.directives false [] tokens
        match rest with
        | .documentStart :: rest =>
          Cursor.explicitDocument fuel ⟨rest, [], handles ++ Cursor.defaultHandles⟩
        | _ => none
      else Cursor.node fuel true false ⟨tokens, [], Cursor.defaultHandles⟩
    if c.tokens.all (· == .documentEnd) then return some tree else none

end JsonPatch.Yaml
