import DualImage.Path

/-! Names of object files. The objects of one package lie in one directory, so a source is named by
all its components below the directory that the sources share. -/
namespace DualImage

def commonStart : List Text → List Text → List Text
  | a :: as, b :: bs => if a = b then a :: commonStart as bs else []
  | _, _ => []

/-- The deepest directory above all the given ones. Absolute and relative ones have none, and an
absolute one is anchored at the single root. -/
def commonDirectory? : List Path → Option Path
  | [] => none
  | dir :: dirs =>
    if dirs.all (·.isAbsolute == dir.isAbsolute) then
      some ⟨if dir.isAbsolute then .root else .relative,
        dirs.foldl (fun shared d => commonStart shared d.parts) dir.parts⟩
    else none

/-- Components joined by underscores, the last one without its suffix. -/
def objectName? (parts : List Text) : Option Text :=
  parts.getLast?.map fun last =>
    Text.intercalate "_" (parts.dropLast ++ [(Path.splitSuffix last).1]) ++ ".o"

/-- One object for each source, in order. There is none when a source has no last component or
does not lie below the common directory. -/
def objectPaths? (sources : List Path) (objectDir : Path) : Option (List Path) :=
  if sources.isEmpty then some []
  else do
    let common ← commonDirectory? (sources.map Path.parent)
    sources.mapM fun source => do
      let name ← objectName? (← source.relativeTo? common)
      return objectDir.child name

end DualImage
