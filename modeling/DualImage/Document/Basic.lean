import DualImage.Text.Basic

/-! Values of a configuration file. A collection may hold itself, so collections lie on a shelf and
are known by their places. -/
namespace DualImage

/-- A plain value, or the place of a collection. -/
inductive Datum where
  | null
  | boolean (b : Bool)
  | integer (i : Int)
  | text (t : Text)
  | bytes (bs : List UInt8)
  | collection (place : Nat)
  deriving Inhabited, Repr, DecidableEq

/-- Entries of a mapping and members of a set are in the order of the file. -/
inductive Collection where
  | list (items : List Datum)
  | pair (first second : Datum)
  | set (members : List Datum)
  | mapping (entries : List (Datum × Datum))
  deriving Inhabited, Repr

abbrev Shelf := Array Collection

/-- A value together with the shelf that holds all collections it leads to. -/
structure Document where
  shelf : Shelf
  datum : Datum
  deriving Inhabited, Repr

namespace Datum

def text? : Datum → Option Text
  | text t => some t
  | _ => none

/-- Collections cannot be keys. -/
def canBeKey : Datum → Bool
  | collection _ => false
  | _ => true

def number? : Datum → Option Int
  | boolean b => some (if b then 1 else 0)
  | integer i => some i
  | _ => none

/-- Truth values are the numbers zero and one as keys. -/
def sameKey : Datum → Datum → Bool
  | null, null => true
  | text a, text b => a == b
  | bytes a, bytes b => a == b
  | a, b => match a.number?, b.number? with
    | some i, some j => i == j
    | _, _ => false

/-- A key that is there keeps its place and its spelling. -/
def put (key value : Datum) : List (Datum × Datum) → List (Datum × Datum)
  | [] => [(key, value)]
  | (k, v) :: rest => if k.sameKey key then (k, value) :: rest else (k, v) :: put key value rest

end Datum

/-- The collection at a place. Beyond the shelf there are empty lists. -/
def Shelf.collection (shelf : Shelf) (place : Nat) : Collection := shelf[place]?.getD (.list [])

namespace Document

def null : Document := ⟨#[], .null⟩

def integer (i : Int) : Document := ⟨#[], .integer i⟩

def text (t : Text) : Document := ⟨#[], .text t⟩

/-- A document as a tree of depth one. Pairs and sets count as lists. -/
inductive View where
  | null
  | boolean (b : Bool)
  | integer (i : Int)
  | text (t : Text)
  | bytes (bs : List UInt8)
  | list (items : List Document)
  | mapping (entries : List (Document × Document))

def view (d : Document) : View :=
  match d.datum with
  | .null => .null
  | .boolean b => .boolean b
  | .integer i => .integer i
  | .text t => .text t
  | .bytes bs => .bytes bs
  | .collection place => match d.shelf.collection place with
    | .list items => .list (items.map (⟨d.shelf, ·⟩))
    | .pair first second => .list [⟨d.shelf, first⟩, ⟨d.shelf, second⟩]
    | .set members => .list (members.map (⟨d.shelf, ·⟩))
    | .mapping entries => .mapping (entries.map fun (k, v) => (⟨d.shelf, k⟩, ⟨d.shelf, v⟩))

/-- Empty values and zero count as not given. -/
def isGiven (d : Document) : Bool :=
  match d.view with
  | .null => false
  | .boolean b => b
  | .integer i => i != 0
  | .text t => !t.isEmpty
  | .bytes bs => !bs.isEmpty
  | .list items => !items.isEmpty
  | .mapping entries => !entries.isEmpty

def canBeKey (d : Document) : Bool := d.datum.canBeKey

def text? (d : Document) : Option Text := d.datum.text?

def isText (d : Document) (t : Text) : Bool := d.text? == some t

/-- The value of a key. -/
def lookup? (entries : List (Document × Document)) (key : Text) : Option Document :=
  (entries.find? fun (k, _) => k.isText key).map (·.2)

@[simp] theorem text?_text (t : Text) : (text t).text? = some t := rfl

end Document
end DualImage
