import JsonPatch.Yaml.Scalar
import JsonPatch.Yaml.Token.Stream
import JsonPatch.Yaml.Tree

namespace JsonPatch.Yaml

/-- The most containers that may lie inside each other. -/
def maxDepth : Nat := 128

/-- How often aliases may be followed for each step of the document. -/
def aliasesPerEvent : Nat := 100

def Tree.properties : Tree → Properties
  | .alias _ => .none
  | .scalar p _ _ | .sequence p _ | .mapping p _ => p

mutual

/-- The steps of a document: one for each scalar and alias, two for each container. -/
def Tree.events : Tree → Nat
  | .alias _ | .scalar .. => 1
  | .sequence _ items => 2 + itemEvents items
  | .mapping _ entries => 2 + entryEvents entries

def itemEvents : List Tree → Nat
  | [] => 0
  | item :: items => item.events + itemEvents items

def entryEvents : List (Tree × Tree) → Nat
  | [] => 0
  | (key, value) :: entries => key.events + value.events + entryEvents entries

end

/-- The node itself with its anchor, if it has one. -/
def Tree.ownAnchor (tree : Tree) : List (Nat × Tree) :=
  match tree.properties.anchor with
  | some n => [(n, tree)]
  | none => []

mutual

/-- The nodes with anchors, in the order of the text. -/
def Tree.anchored (tree : Tree) : List (Nat × Tree) :=
  match tree with
  | .alias _ => []
  | .scalar p t plain => (Tree.scalar p t plain).ownAnchor
  | .sequence p items => (Tree.sequence p items).ownAnchor ++ itemsAnchored items
  | .mapping p entries => (Tree.mapping p entries).ownAnchor ++ entriesAnchored entries

def itemsAnchored : List Tree → List (Nat × Tree)
  | [] => []
  | item :: items => item.anchored ++ itemsAnchored items

def entriesAnchored : List (Tree × Tree) → List (Nat × Tree)
  | [] => []
  | (key, value) :: entries => key.anchored ++ (value.anchored ++ entriesAnchored entries)

end

/-- Puts the local tag of a node around its value, if it has one with a name. -/
def tagWith (properties : Properties) (value : Yaml) : Yaml :=
  match properties.tag.bind Tag.localName? with
  | some name => .tagged name value
  | none => value

/-- The value of a scalar. Its type tag is heeded; behind a local tag it is read as if it had none. -/
def scalarValue (properties : Properties) (text : String) (plain : Bool) : Option Yaml :=
  let untagged := if plain then Scalar.plain? text else some (.string text)
  match properties.tag with
  | none => untagged
  | some tag => if tag.isLocal then untagged else Scalar.tagged? tag.text? text

/-- Entries in the order of the text, whose keys must differ. -/
def distinctKeys (entries : List (Yaml × Yaml)) : Bool :=
  match entries with
  | [] => true
  | (key, _) :: rest => !rest.any (fun entry => entry.1.same key) && distinctKeys rest

structure Anchors where
  nodes : List (Nat × Tree)

/-- A computation that follows aliases, of which only so many may still be followed. -/
abbrev Compose := StateT Nat Option

/-- The node that an alias leads to. A number that was given twice belongs to the later node. -/
def Anchors.follow (anchors : Anchors) (tree : Tree) : Compose Tree := fun left =>
  match tree with
  | .alias n =>
    if left = 0 then none
    else (anchors.nodes.reverse.lookup n).map fun target => (target, left - 1)
  | tree => some (tree, left)

/-- The value of a node, given how nodes one container deeper are composed. No alias leads to an
alias. -/
def composeWith (inner : Tree → Compose Yaml) : Tree → Compose Yaml
  | .scalar properties text plain => do
    let value ← StateT.lift (scalarValue properties text plain)
    return tagWith properties value
  | .sequence properties items => do
    let items ← items.mapM inner
    return tagWith properties (.sequence items)
  | .mapping properties entries => do
    let entries ← entries.mapM fun entry => do
      let key ← inner entry.1
      return (key, ← inner entry.2)
    if distinctKeys entries then return tagWith properties (.mapping entries) else failure
  | .alias _ => failure

def Tree.isContainer : Tree → Bool
  | .sequence .. | .mapping .. => true
  | _ => false

/-- The value of a node, containers lying at most `depth` deep. -/
def Anchors.compose (anchors : Anchors) : (depth : Nat) → Tree → Compose Yaml
  | 0, tree => do
    let node ← anchors.follow tree
    if node.isContainer then failure else composeWith (fun _ => failure) node
  | depth + 1, tree => do composeWith (anchors.compose depth) (← anchors.follow tree)

def Tree.value? (tree : Tree) : Option Yaml :=
  let anchors : Anchors := ⟨tree.anchored⟩
  ((anchors.compose maxDepth tree).run (aliasesPerEvent * tree.events)).map Prod.fst

/-- Reads a text. One without a document is null. -/
def read? (text : String) : Option Yaml := do
  match ← Tree.ofTokens? (← tokenize text) with
  | none => return .null
  | some tree => tree.value?

end JsonPatch.Yaml
