import DualImage.Yaml.Node.Basic
import DualImage.Yaml.Token.Lexer

/-! The node that a row of tokens holds. -/
namespace DualImage.Yaml

/-- Tokens to come, the fault behind the last of them if there is one, tag handles, anchors and
the nodes begun so far. -/
structure NodeReader where
  tokens : List Token
  ending : Option Fault
  handles : List (String × String)
  anchors : List (String × Nat)
  nodes : Array Node

namespace NodeReader

abbrev Reading := StateT NodeReader (Except Fault)

/-- The next token. Past the last one there is only the fault. -/
def peek? : Reading (Option Token) := do
  match (← get).tokens, (← get).ending with
  | t :: _, _ => return some t
  | [], some fault => throw fault
  | [], none => return none

def advance : Reading Unit := modify fun r => { r with tokens := r.tokens.tail }

def sees (t : Token) : Reading Bool := return (← peek?) == some t

/-- Takes a token away, if it comes next. -/
def accept (t : Token) : Reading Bool := do
  if ← sees t then
    advance
    return true
  else return false

def expect (t : Token) : Reading Unit := do
  if !(← accept t) then throw .malformed

def seesAny (ts : List Token) : Reading Bool := return (← peek?).any (ts.contains ·)

def fullTag (handle : Option String) (suffix : String) : Reading String := do
  match handle with
  | none => return suffix
  | some name =>
    match (← get).handles.lookup name with
    | some stem => return stem ++ suffix
    | none => throw .malformed

/-- Anchor and tag in either order, each at most once. -/
def properties : Reading (Option String × Option String) := do
  match ← peek? with
  | some (.anchor name) =>
    advance
    if let some (.tag handle suffix) := ← peek? then
      advance
      return (some name, some (← fullTag handle suffix))
    return (some name, none)
  | some (.tag handle suffix) =>
    advance
    if let some (.anchor name) := ← peek? then
      advance
      return (some name, some (← fullTag handle suffix))
    return (none, some (← fullTag handle suffix))
  | _ => return (none, none)

/-- An anchor's name is given once in a document. -/
def refuseTaken (name : Option String) : Reading Unit := do
  if let some name := name then
    if ((← get).anchors.lookup name).isSome then throw .malformed

/-- A place for a node, which its anchor stands for from now on. -/
def place (anchor : Option String) (n : Node) : Reading Nat := do
  let place := (← get).nodes.size
  modify fun r => { r with nodes := r.nodes.push n }
  if let some name := anchor then
    modify fun r => { r with anchors := (name, place) :: r.anchors }
  return place

def scalar (anchor tag : Option String) (text : Text) (plain : Bool) : Reading Nat :=
  place anchor ⟨.ofScalar tag text plain, .scalar text⟩

def empty : Reading Nat := scalar none none "" true

/-- A collection has its place before its parts are read, so these can refer to it. -/
def collection (anchor tag : Option String) (kind : Tag) (parts : Reading Content) :
    Reading Nat := do
  let tag := Tag.ofCollection tag kind
  let place ← place anchor ⟨tag, default⟩
  let content ← parts
  modify fun r => { r with nodes := r.nodes.setIfInBounds place ⟨tag, content⟩ }
  return place

def list (anchor tag : Option String) (items : Reading (List Nat)) : Reading Nat :=
  collection anchor tag .list (.list <$> items)

def mapping (anchor tag : Option String) (entries : Reading (List (Nat × Nat))) : Reading Nat :=
  collection anchor tag .mapping (.mapping <$> entries)

/-- Where a node may begin: in a block, as the value of a key in a block, or between brackets. -/
inductive Position where
  | block
  | blockValue
  | flow
  deriving DecidableEq

def Position.inBlock (p : Position) : Bool := p != .flow

/-- Tokens before which a part of a mapping is empty. -/
def keyEnds : List Token := [.key, .value, .blockEnd]

mutual

def node (p : Position) : Nat → Reading Nat
  | 0 => throw .malformed
  | fuel + 1 => do
    if let some (.alias name) := ← peek? then
      advance
      match (← get).anchors.lookup name with
      | some n => return n
      | none => throw .malformed
    let (anchor, tag) ← properties
    content p anchor tag fuel

/-- A node without its properties. With properties it may be empty. -/
def content (p : Position) (anchor tag : Option String) : Nat → Reading Nat
  | 0 => throw .malformed
  | fuel + 1 => do
    let next ← peek?
    refuseTaken anchor
    match next with
    | some (.scalar text plain) =>
      advance
      scalar anchor tag text plain
    | some .flowListStart =>
      advance
      list anchor tag (flowItems true fuel)
    | some .flowMappingStart =>
      advance
      mapping anchor tag (flowEntries true fuel)
    | next =>
      if next == some .blockEntry && p == .blockValue then
        list anchor tag (looseItems fuel)
      else if next == some .blockListStart && p.inBlock then
        advance
        list anchor tag (blockItems fuel)
      else if next == some .blockMappingStart && p.inBlock then
        advance
        mapping anchor tag (blockEntries fuel)
      else if anchor.isSome || tag.isSome then scalar anchor tag "" true
      else throw .malformed

/-- A node, or nothing before certain tokens. -/
def optional (p : Position) (ends : List Token) : Nat → Reading Nat
  | 0 => throw .malformed
  | fuel + 1 => do if ← seesAny ends then empty else node p fuel

def blockItems : Nat → Reading (List Nat)
  | 0 => throw .malformed
  | fuel + 1 => do
    if ← accept .blockEntry then
      let n ← optional .block [.blockEntry, .blockEnd] fuel
      return n :: (← blockItems fuel)
    else
      expect .blockEnd
      return []

/-- Items of a list that is not indented below its key. -/
def looseItems : Nat → Reading (List Nat)
  | 0 => throw .malformed
  | fuel + 1 => do
    if ← accept .blockEntry then
      let n ← optional .block (.blockEntry :: keyEnds) fuel
      return n :: (← looseItems fuel)
    else return []

/-- The part of an entry behind a mark, empty where the mark is missing. -/
def behind (mark : Token) (p : Position) (ends : List Token) : Nat → Reading Nat
  | 0 => throw .malformed
  | fuel + 1 => do
    if ← accept mark then optional p ends fuel else empty

def blockEntries : Nat → Reading (List (Nat × Nat))
  | 0 => throw .malformed
  | fuel + 1 => do
    if ← sees .key then
      let k ← behind .key .blockValue keyEnds fuel
      let v ← behind .value .blockValue keyEnds fuel
      return (k, v) :: (← blockEntries fuel)
    else
      expect .blockEnd
      return []

/-- Items between brackets. One with a key is a mapping of its own. -/
def flowItems (first : Bool) : Nat → Reading (List Nat)
  | 0 => throw .malformed
  | fuel + 1 => do
    if ← accept .flowListEnd then return []
    if !first then expect .flowEntry
    if ← sees .key then
      let n ← mapping none none do
        let k ← behind .key .flow [.value, .flowEntry, .flowListEnd] fuel
        let v ← behind .value .flow [.flowEntry, .flowListEnd] fuel
        return [(k, v)]
      return n :: (← flowItems false fuel)
    else if ← accept .flowListEnd then return []
    else
      let n ← node .flow fuel
      return n :: (← flowItems false fuel)

/-- Entries between braces. One without a key mark has no value. -/
def flowEntries (first : Bool) : Nat → Reading (List (Nat × Nat))
  | 0 => throw .malformed
  | fuel + 1 => do
    if ← accept .flowMappingEnd then return []
    if !first then expect .flowEntry
    if ← sees .key then
      let k ← behind .key .flow [.value, .flowEntry, .flowMappingEnd] fuel
      let v ← behind .value .flow [.flowEntry, .flowMappingEnd] fuel
      return (k, v) :: (← flowEntries false fuel)
    else if ← accept .flowMappingEnd then return []
    else
      let n ← node .flow fuel
      return (n, ← empty) :: (← flowEntries false fuel)

end

/-- Lines with percent signs in front of a document. Only the first version of the language can be
asked for, and nothing twice. -/
def directives : Nat → Bool → Reading Unit
  | 0, _ => throw .malformed
  | fuel + 1, versioned => do
    match ← peek? with
    | some (.version major) =>
      if versioned || major != 1 then throw .malformed
      advance
      directives fuel true
    | some (.handle name stem) =>
      if (← get).handles.any (·.1 == name) then throw .malformed
      advance
      modify fun r => { r with handles := (name, stem) :: r.handles }
      directives fuel versioned
    | some .directive =>
      advance
      directives fuel versioned
    | _ => return ()

def skipEnds : Nat → Reading Unit
  | 0 => return ()
  | fuel + 1 => do if ← accept .documentEnd then skipEnds fuel

def standardHandles : List (String × String) := [("!", "!"), ("!!", Tag.standardStem)]

def isDirective : Token → Bool
  | .version _ => true
  | .handle .. => true
  | .directive => true
  | _ => false

def beginsDocument (t : Token) : Bool := isDirective t || t == .documentStart

/-- A document behind its directives and dashes. -/
def markedNode (fuel : Nat) : Reading Nat := do
  directives fuel false
  expect .documentStart
  modify fun r => { r with handles := r.handles ++ standardHandles }
  if ← seesAny [.documentStart, .documentEnd, .streamEnd] then empty
  else if (← peek?).any isDirective then empty
  else node .block fuel

/-- What follows a document. A second one is a fault as soon as it begins. -/
def endStream (fuel : Nat) : Reading Unit := do
  skipEnds fuel
  if !(← accept .streamEnd) then
    modify fun r => { r with handles := [] }
    directives fuel false
    throw .malformed

/-- The only document of a stream. A stream may hold none. -/
def document (fuel : Nat) : Reading (Option Nat) := do
  if ← accept .streamEnd then return none
  else
    let n ← if (← peek?).any beginsDocument then markedNode fuel
      else do
        modify fun r => { r with handles := standardHandles }
        node .block fuel
    endStream fuel
    return some n

end NodeReader

/-- Between two tokens taken, the reader goes through at most four levels. -/
def Graph.ofTokens? (row : List Token × Option Fault) : Except Fault (Option Graph) := do
  let (root, r) ← (NodeReader.document (4 * row.1.length + 4)).run ⟨row.1, row.2, [], [], #[]⟩
  return root.map (⟨r.nodes, ·⟩)

end DualImage.Yaml
