import DualImage.Path
import DualImage.Text.Lines
import DualImage.Text.Order
import DualImage.Workspace.FileTree

/-! Files with a clock and a current directory. -/
namespace DualImage

/-- The clock moves by one with every change that brings no time of its own. Directories and files
that are left unfinished get the time of the system, which stands still. -/
structure Disk where
  files : FileTree
  clock : Int
  systemTime : Int
  here : Place
  deriving Repr, Inhabited

namespace Disk

/-- Only the directories down to the current one, and both times. -/
def empty (here : Place) (clock systemTime : Int) : Disk :=
  ⟨⟨(List.range (here.length + 1)).map fun n => (here.take n, .directory systemTime)⟩, clock,
    systemTime, here⟩

/-- The most bytes that a path may have. -/
def longestPath : Nat := 4095

/-- Refuses a path that the file system never gets to see. -/
def checkWritten (written : Text) : Except FileFault Unit :=
  if !FileName.isUsable written then throw .unusable
  else if longestPath < FileName.size written then throw .nameTooLong
  else pure ()

def locate (d : Disk) (p : Path) : Except FileFault Place := do
  checkWritten p.toText
  d.files.locate (if p.isAbsolute then [] else d.here) p.parts

/-- What is at a place. -/
def entryOn (d : Disk) (place : Place) : Except FileFault Entry :=
  match d.files.find? place with
  | some e => pure e
  | none => throw .missing

def entry (d : Disk) (p : Path) : Except FileFault Entry := do d.entryOn (← d.locate p)

def read (d : Disk) (p : Path) : Except FileFault String := do (← d.entry p).text

/-- The time for a change, and the disk whose clock shows it. -/
def timeFor (d : Disk) : Option Int → Int × Disk
  | some time => (time, d)
  | none => (d.clock + 1, { d with clock := d.clock + 1 })

/-- The directory of a place has gained or lost a name. -/
def renewDirectory (d : Disk) (place : Place) : Disk :=
  { d with files := d.files.stamp place.dropLast d.systemTime }

/-- What is put at a place is new there, or takes the place of another. -/
def put (d : Disk) (place : Place) (e : Entry) : Disk :=
  let d := if (d.files.find? place).isSome then d else d.renewDirectory place
  { d with files := d.files.put place e }

def writeOn (d : Disk) (place : Place) (text : String) (time : Option Int) :
    Except FileFault Disk := do
  if (d.files.find? place).any (·.isDirectory) then throw .isDirectory
  let (time, d) := d.timeFor time
  return d.put place (.file time text)

/-- The directory of the file has to be there. -/
def write (d : Disk) (p : Path) (text : String) (time : Option Int) : Except FileFault Disk := do
  d.writeOn (← d.locate p) text time

/-- Gives an entry a new time, and makes an empty file where there is none. -/
def touch (d : Disk) (p : Path) (time : Option Int) : Except FileFault Disk := do
  let place ← d.locate p
  let (time, d) := d.timeFor time
  return d.put place (((d.files.find? place).map (·.stamp time)).getD (.file time ""))

def delete (d : Disk) (p : Path) : Except FileFault Disk := do
  let place ← d.locate p
  match d.files.find? place with
  | none => throw .missing
  | some (.directory _) => throw .isDirectory
  | some (.file ..) => return { d with files := d.files.erase place }.renewDirectory place

def hasDirectory (d : Disk) (p : Path) : Bool :=
  match d.entry p with
  | .ok e => e.isDirectory
  | .error _ => false

/-- One directory, below directories that are there. The clock stays. -/
def makeDirectory (d : Disk) (p : Path) : Except FileFault Disk := do
  let place ← d.locate p
  match d.files.find? place with
  | some _ => throw .occupied
  | none => return d.put place (.directory d.systemTime)

/-- A directory that may be there already. -/
def ensureDirectory (d : Disk) (p : Path) : Except FileFault Disk :=
  match d.makeDirectory p with
  | .ok d => .ok d
  | .error .missing => .error .missing
  | .error fault => if d.hasDirectory p then .ok d else .error fault

/-- A directory with all that are missing above it. What was made stays when a later one fails, so
the disk comes with the fault. -/
def ensureDirectories (d : Disk) (p : Path) : Except FileFault Unit × Disk :=
  match d.ensureDirectory p with
  | .ok d => (.ok (), d)
  | .error .missing =>
    if p.parts = [] then (.error .missing, d)
    else match ensureDirectories d p.parent with
      | (.ok (), d) => match d.ensureDirectory p with
        | .ok d => (.ok (), d)
        | .error fault => (.error fault, d)
      | (.error fault, d) => (.error fault, d)
  | .error fault => (.error fault, d)
termination_by p.parts.length
decreasing_by
  have := List.length_pos_iff.2 (by assumption : ¬ p.parts = [])
  simp only [Path.parent, List.length_dropLast]
  omega

/-- Text of all files below the current directory, in the order of their written paths. -/
def listing (d : Disk) : List (Text × Int × String) :=
  Text.sortedBy (·.1) (d.files.entries.filterMap fun (place, e) =>
    match e with
    | .directory _ => none
    | .file time text =>
      if d.here.isPrefixOf place then
        some (Text.intercalate "/" (place.drop d.here.length), time, text)
      else none)

end Disk
end DualImage
