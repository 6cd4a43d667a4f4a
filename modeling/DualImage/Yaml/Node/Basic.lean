import DualImage.Yaml.Tag

/-! Nodes of a YAML document, known by their places. An alias leads back to the node of its anchor,
from inside that node too. -/
namespace DualImage.Yaml

inductive Content where
  | scalar (text : Text)
  | list (items : List Nat)
  | mapping (entries : List (Nat × Nat))
  deriving Inhabited, Repr

structure Node where
  tag : Tag
  content : Content
  deriving Inhabited, Repr

/-- The node itself and its items. -/
def Node.width (n : Node) : Nat :=
  match n.content with
  | .list items => items.length + 1
  | _ => 1

/-- All nodes of a document by their places, and the place of the first. -/
structure Graph where
  nodes : Array Node
  root : Nat
  deriving Inhabited, Repr

namespace Graph

def node (g : Graph) (place : Nat) : Node := g.nodes[place]?.getD default

def setTag (g : Graph) (place : Nat) (tag : Tag) : Graph :=
  { g with nodes := g.nodes.modify place ({ · with tag }) }

/-- The text of a scalar. A mapping has the text of its first value behind a sign of equality. -/
def text? (g : Graph) : Nat → Nat → Option Text
  | 0, _ => none
  | fuel + 1, place =>
    match (g.node place).content with
    | .scalar t => some t
    | .list _ => none
    | .mapping entries => do
      let (_, value) ← entries.find? fun (key, _) => (g.node key).tag == .equals
      g.text? fuel value

end Graph
end DualImage.Yaml
