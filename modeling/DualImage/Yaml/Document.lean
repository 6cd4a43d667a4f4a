import DualImage.Document.Basic
import DualImage.Text.Base64
import DualImage.Yaml.Node.Reader

/-! The document that a text holds. Scalars get their values where they are met, collections in the
order in which they are first met, so of several faults the least deep one counts. -/
namespace DualImage.Yaml
namespace Graph

/-- A collection that was met: a node that has yet to be filled, or a pair of values. -/
inductive Met where
  | node (place : Nat)
  | pair (first second : Datum)
  deriving DecidableEq, Repr, Inhabited

/-- A graph on the way to its document, and the collections met so far. -/
abbrev Meeting := StateT (Graph × Array Met) (Except Fault)

/-- The text of a node that is meant to be no collection. -/
def meetText (place : Nat) : Meeting Text := do
  let g := (← get).1
  match g.text? g.nodes.size place with
  | some t => return t
  | none => throw .malformed

/-- A collection is known by the order of the meetings. -/
def meetFirst (m : Met) : Meeting Datum := do
  let n := (← get).2.size
  modify fun (g, met) => (g, met.push m)
  return .collection n

def meetCollection (place : Nat) : Meeting Datum := do
  match (← get).2.idxOf? (.node place) with
  | some n => return .collection n
  | none => meetFirst (.node place)

def meetBoolean (place : Nat) : Meeting Bool := do
  match (← meetText place).string?.bind fun s => Value.truth? s.toLower with
  | some b => return b
  | none => throw .malformed

def meetInteger (place : Nat) : Meeting Int := do
  match Value.integer? (← meetText place) with
  | some i => return i
  | none => throw .badNumber

/-- No character above ASCII may stand between the digits of bytes. -/
def meetBytes (place : Nat) : Meeting (List UInt8) := do
  match (← meetText place).chars?.bind fun cs =>
    if cs.all (·.toNat < 0x80) then Text.Base64.bytes? cs else none with
  | some bs => return bs
  | none => throw .malformed

/-- The value of a node. A collection may have any form here. -/
def meet (place : Nat) : Meeting Datum := do
  match ((← get).1.node place).tag with
  | .null =>
    discard <| meetText place
    return .null
  | .boolean => return .boolean (← meetBoolean place)
  | .integer => return .integer (← meetInteger place)
  | .text => return .text (← meetText place)
  | .bytes => return .bytes (← meetBytes place)
  | .list => meetCollection place
  | .pairs => meetCollection place
  | .set => meetCollection place
  | .mapping => meetCollection place
  | .equals => throw .malformed
  | .unknown => throw .malformed

/-- A sign of equality is text from now on. -/
def spellOut (key : Nat) : Meeting Unit := do
  if ((← get).1.node key).tag == .equals then modify fun (g, met) => (g.setTag key .text, met)

/-- Of two equal keys the later one's value counts. Collections cannot be keys. -/
def entry (done : List (Datum × Datum)) : Nat × Nat → Meeting (List (Datum × Datum))
  | (k, v) => do
    let key ← meet k
    if !key.canBeKey then throw .malformed
    return Datum.put key (← meet v) done

def entries (parts : List (Nat × Nat)) : Meeting (List (Datum × Datum)) := do
  parts.forM fun (key, _) => spellOut key
  parts.foldlM entry []

/-- A pair is written as a mapping with one entry. Its values are met at once. -/
def pair (place : Nat) : Meeting Datum := do
  match ((← get).1.node place).content with
  | .mapping [(first, second)] => meetFirst (.pair (← meet first) (← meet second))
  | _ => throw .malformed

def fill (place : Nat) : Meeting Collection := do
  let n := (← get).1.node place
  match n.tag, n.content with
  | .list, .list items => return .list (← items.mapM meet)
  | .pairs, .list items => return .list (← items.mapM pair)
  | .set, .mapping parts => return .set ((← entries parts).map (·.1))
  | .mapping, .mapping parts => return .mapping (← entries parts)
  | _, _ => throw .malformed

/-- Fills the collections that follow those on the shelf. -/
def fillFrom : Nat → Shelf → Meeting Shelf
  | 0, shelf => return shelf
  | fuel + 1, shelf => do
    match (← get).2[shelf.size]? with
    | none => return shelf
    | some (.node place) => fillFrom fuel (shelf.push (← fill place))
    | some (.pair first second) => fillFrom fuel (shelf.push (.pair first second))

/-- Each collection is filled once, and each item of a list brings at most one pair. -/
def document (g : Graph) : Except Fault Document := do
  let meeting : Meeting Document := do
    let datum ← meet g.root
    return ⟨← fillFrom (g.nodes.foldl (fun n node => n + node.width) 0) #[], datum⟩
  return (← meeting.run (g, #[])).1

end Graph

/-- The value of a stream's document. A stream without a document holds nothing. -/
def read (text : String) : Except Fault Document := do
  match ← Graph.ofTokens? (Token.ofChars text.toList) with
  | some g => g.document
  | none => return .null

end DualImage.Yaml
