import DualImage.Workspace.Fault
import DualImage.Workspace.FileName

/-! The files below the root of a file system, each known by its components from there. -/
namespace DualImage

/-- Times are those of the last change. -/
inductive Entry where
  | file (time : Int) (text : String)
  | directory (time : Int)
  deriving DecidableEq, Repr, Inhabited

namespace Entry

def time : Entry → Int
  | file time _ => time
  | directory time => time

def isDirectory : Entry → Bool
  | file .. => false
  | directory _ => true

/-- A directory has no text. -/
def text : Entry → Except FileFault String
  | file _ text => pure text
  | directory _ => throw .isDirectory

/-- The same contents with another time. -/
def stamp (time : Int) : Entry → Entry
  | file _ text => file time text
  | directory _ => directory time

end Entry

/-- The components of an absolute place, without `.` and `..`, as they are read back. -/
abbrev Place := List Text

structure FileTree where
  entries : List (Place × Entry)
  deriving Repr, Inhabited

namespace FileTree

def find? (t : FileTree) (place : Place) : Option Entry :=
  (t.entries.find? (·.1 == place)).map (·.2)

def erase (t : FileTree) (place : Place) : FileTree :=
  ⟨t.entries.filter (·.1 != place)⟩

def put (t : FileTree) (place : Place) (e : Entry) : FileTree :=
  ⟨(place, e) :: (t.erase place).entries⟩

/-- Another time for what is at a place. -/
def stamp (t : FileTree) (place : Place) (time : Int) : FileTree :=
  match t.find? place with
  | some e => t.put place (e.stamp time)
  | none => t

/-- The most bytes that a component may have. -/
def longestName : Nat := 255

/-- One step from a directory. Its own entry is not looked at, nor that of the step's end. -/
def step (place : Place) (part : Text) : Except FileFault Place :=
  if part = "." then pure place
  else if part = ".." then pure place.dropLast
  else if longestName < FileName.size part then throw .nameTooLong
  else pure (place ++ [FileName.canonical part])

/-- Where a path leads. Every place that the path leaves has to be a directory, and the end need
not be there. -/
def locate (t : FileTree) (start : Place) : List Text → Except FileFault Place
  | [] => pure start
  | part :: rest =>
    match t.find? start with
    | none => throw .missing
    | some (.file ..) => throw .notDirectory
    | some (.directory _) => do t.locate (← step start part) rest

theorem find?_erase (t : FileTree) (place other : Place) :
    (t.erase place).find? other = if other = place then none else t.find? other := by
  simp only [find?, erase, List.find?_filter]
  split
  · next h =>
    subst h
    simp
  · next h =>
    congr 2
    funext e
    by_cases he : e.1 = other <;> simp [he, h]

theorem find?_put (t : FileTree) (place other : Place) (e : Entry) :
    (t.put place e).find? other = if other = place then some e else t.find? other := by
  by_cases h : other = place
  · simp [put, find?, h]
  · have := t.find?_erase place other
    simp only [find?, h, if_false] at this
    simp [put, find?, Ne.symm h, this, h]

theorem find?_stamp (t : FileTree) (place other : Place) (time : Int) :
    (t.stamp place time).find? other =
      if other = place then (t.find? other).map (·.stamp time) else t.find? other := by
  unfold stamp
  split
  · next e h =>
    rw [find?_put]
    split
    · next he => rw [he, h, Option.map_some]
    · rfl
  · next h =>
    split
    · next he => rw [he, h, Option.map_none]
    · rfl

end FileTree
end DualImage
