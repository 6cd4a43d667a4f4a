import DualImage.Text.Piece
import DualImage.Workspace.Disk

/-! The tools outside the program, as far as a build can tell them apart: they end with a status
and some text, and a successful one renews its output. -/
namespace DualImage

/-- Decides the fate of the commands whose text holds the piece. -/
structure ToolRule where
  piece : Text
  absent : Bool
  status : Int
  stdout : Option String
  stderr : Option String
  deriving Repr, Inhabited

/-- The first rule that matches counts. Listings are those that a dump of the path shows. -/
structure Tools where
  rules : List ToolRule
  listings : List (Text × String)
  deriving Repr, Inhabited

/-- Words of a command line, the tool first. -/
abbrev Command := List Text

namespace Command

def text (c : Command) : Text := Text.intercalate " " c

def tool (c : Command) : Text := c.headD ""

/-- What a successful command writes. The tool is known by the end of its name. -/
def output? (c : Command) : Option Path :=
  if c.tool.endsWith "gcc" then
    match c.dropWhile (· != ("-o" : Text)) with
    | _ :: target :: _ => some (.ofText target)
    | _ => none
  else if c.tool.endsWith "ar" then (c.drop 2).head?.map .ofText
  else if c.tool.endsWith "objcopy" then c.getLast?.map .ofText
  else none

/-- What a successful command shows of the listings. -/
def shows (c : Command) (listings : List (Text × String)) : String :=
  if c.tool.endsWith "objdump" then ((c.getLast?.bind (List.lookup · listings)).getD "") else ""

end Command

namespace Tools

def setListing (t : Tools) (path : Text) (text : String) : Tools :=
  { t with listings := (path, text) :: t.listings.filter (·.1 != path) }

def rule? (t : Tools) (c : Command) : Option ToolRule :=
  t.rules.find? fun r => Text.hasPiece r.piece.codes c.text.codes

end Tools
end DualImage
