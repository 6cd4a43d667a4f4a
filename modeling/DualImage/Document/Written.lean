import DualImage.Document.Basic
import DualImage.Text.Decimal
import DualImage.Text.Quoted

/-! The two ways in which a document is shown: on its own and inside another. A number that is too
long to be written leaves both without a form. -/
namespace DualImage.Document

/-- A collection between its brackets. -/
def bracketed (shelf : Shelf) (place : Nat) (inside : String) : String :=
  match shelf.collection place with
  | .list _ => "[" ++ inside ++ "]"
  | .pair .. => "(" ++ inside ++ ")"
  | .set [] => "set()"
  | .set _ => "\x7b" ++ inside ++ "\x7d"
  | .mapping _ => "\x7b" ++ inside ++ "\x7d"

/-- The form inside a collection, where text is quoted. A collection that is being written
already is only hinted at, and `unopened` bounds the number of the others. -/
def inner? (shelf : Shelf) : Nat → List Nat → Datum → Option String
  | _, _, .null => some "None"
  | _, _, .boolean b => some (if b then "True" else "False")
  | _, _, .integer i => Text.Decimal.written? i
  | _, _, .text t => some (Text.quoted t)
  | _, _, .bytes bs => some (Text.quotedBytes bs)
  | 0, _, .collection place => some (bracketed shelf place "...")
  | unopened + 1, opened, .collection place => do
    if opened.contains place then return bracketed shelf place "..."
    let inside := inner? shelf unopened (place :: opened)
    let parts ← match shelf.collection place with
      | .list items => items.mapM inside
      | .pair first second => [first, second].mapM inside
      | .set members => members.mapM inside
      | .mapping entries => entries.mapM fun (k, v) => return (← inside k) ++ ": " ++ (← inside v)
    return bracketed shelf place (", ".intercalate parts)

/-- The form in a message or a path, where text stands as it is. -/
def shown? (d : Document) : Option Text :=
  match d.datum with
  | .text t => some t
  | datum => (inner? d.shelf d.shelf.size [] datum).map .ofString

end DualImage.Document
