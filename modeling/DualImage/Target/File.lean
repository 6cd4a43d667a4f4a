import DualImage.Target.Reader
import DualImage.Workspace.World
import DualImage.Yaml.Document

/-! Targets as files of a workspace. -/
namespace DualImage.World

def readTarget (base : Path) (buildDir : Option Path) (d : Document) : Action Target := do
  lift (Target.ofDocument base buildDir (← get).buildDirVariable d)

def readDocument (p : Path) : Action Document := do
  match (← get).disk.read p with
  | .error .unusable => throw .badValue
  | .error fault => throw (.target (.unreadable p fault))
  | .ok text =>
    match Yaml.read (String.ofList (Text.unifyBreaks text.toList)) with
    | .ok d => return d
    | .error .malformed => throw (.target (.malformed p))
    | .error .badNumber => throw .badValue

/-- Relative paths in the file are seen from the directory that holds it. -/
def loadTarget (p : Path) (buildDir : Option Path) : Action Target := do
  let d ← readDocument p
  readTarget (p.parent.resolve (← get).disk.here) buildDir d

end DualImage.World
