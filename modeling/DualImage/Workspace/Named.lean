import DualImage.Workspace.Disk

/-! Files by the text that names them. A path forgets empty components and single dots, but on the
way to a file each of them stands for a directory. -/
namespace DualImage.Disk

/-- The steps of a written path. -/
def steps (written : Text) : List Text :=
  (written.codes.splitOn (.character '/')).map fun part => if part = [] then "." else ⟨part⟩

/-- Where a written path leads. The empty text leads nowhere. -/
def follow (d : Disk) (written : Text) : Except FileFault Place := do
  if written.isEmpty then throw .missing
  checkWritten written
  let start := if Anchor.ofCodes written.codes = .relative then d.here else []
  d.files.locate start (steps written)

def entryNamed (d : Disk) (written : Text) : Except FileFault Entry := do
  d.entryOn (← d.follow written)

def readNamed (d : Disk) (written : Text) : Except FileFault String := do
  (← d.entryNamed written).text

/-- A new file cannot have a name with a slash at its end. -/
def writeNamed (d : Disk) (written : Text) (text : String) (time : Option Int) :
    Except FileFault Disk := do
  let name : Text := ⟨(written.codes.reverse.dropWhile (· = .character '/')).reverse⟩
  let place ← d.follow name
  if name ≠ written then throw .isDirectory
  d.writeOn place text time

end DualImage.Disk
