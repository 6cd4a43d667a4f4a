import DualImage.Path
import DualImage.SymbolTable.Comparison
import DualImage.Text.Piece
import DualImage.Workspace.Fault

/-! Everything that can stop a build, and the words for it. -/
namespace DualImage

/-- What is wrong with a target. Names and entries are given as they are shown. -/
inductive TargetFault where
  | unnamed
  | unnamedHalf (role : String)
  | unnamedPackage (entry : Text)
  | noBoard (target : Text)
  | noCompiler (target : Text)
  | noApplication (target : Text)
  | noLinkerScript (board : Text)
  | noSecondScript (board : Text)
  | unreadable (path : Path) (fault : FileFault)
  | malformed (path : Path)
  deriving Repr

/-- The path of a malformed target is shown up to the first colon with a space behind it. -/
def TargetFault.message : TargetFault → Text
  | unnamed => "Target file must be a mapping with a name"
  | unnamedHalf role => "The " ++ role ++ " section needs a name"
  | unnamedPackage entry => "Package entry without a name: " ++ entry
  | noBoard target => "BSP package not specified by target " ++ target
  | noCompiler target => "Compiler not specified by target " ++ target
  | noApplication target => "Application not specified by target " ++ target
  | noLinkerScript board => "BSP " ++ board ++ " does not specify a linker script"
  | noSecondScript board =>
    "BSP " ++ board ++ " must specify a part2 linker script for split image builds"
  | unreadable path fault =>
    "Cannot read target file " ++ path.toText ++ ": " ++ fault.describe path.toText
  | malformed path =>
    "Invalid target file " ++
      Text.mk (Text.beforePiece [.character ':', .character ' '] path.toText.codes)

/-- The last three are not explained to the user: a value of the wrong kind, a value that cannot
be written or make up a path, and a fault of the file system while writing. -/
inductive Failure where
  | target (fault : TargetFault)
  | command (words : List Text) (status : Option Int) (output : String)
  | unreadableOutput (path : Path) (fault : FileFault)
  | unreadableInput (path : Path) (fault : FileFault)
  | clash (name : String) (first second : Text)
  | conflicts (pairs : List SymbolPair)
  | partlyShared (package : Text) (names : List String)
  | wrongKind
  | badValue
  | files (fault : FileFault)
  deriving Repr

namespace Failure

/-- A fault that nothing explains any further. -/
def ofFault : FileFault → Failure
  | .unusable => badValue
  | fault => files fault

/-- The names are kept in their order, whatever the order in which they were found. -/
def ofPartlyShared (package : Text) (names : List String) : Failure :=
  partlyShared package (Text.sorted names)

private def commandMessage (words : List Text) (status : Option Int) (output : String) : Text :=
  let code := match status with
    | some n => toString n
    | none => "None"
  let line := "Command failed (" ++ code ++ "): " ++ Text.intercalate " " words
  if output = "" then line
  else line ++ "\n" ++ String.ofList (Text.trimEnd output.toList)

/-- There is a message exactly for the failures that are explained. -/
def message? : Failure → Option Text
  | target fault => some fault.message
  | command words status output => some (commandMessage words status output)
  | unreadableOutput path fault =>
    some ("Cannot stat " ++ path.toText ++ ": " ++ fault.describe path.toText)
  | unreadableInput path fault =>
    some ("Cannot stat build input " ++ path.toText ++ ": " ++ fault.describe path.toText)
  | clash name first second =>
    some ("Global Symbol Conflict: " ++ name ++ " from packages " ++ first ++ " and " ++ second)
  | conflicts pairs =>
    some (Text.intercalate "\n"
      ((toString pairs.length ++
        " global data symbol conflict(s) between loader and application:") ::
        pairs.map fun p => "  " ++ p.describe))
  | partlyShared package names =>
    some ("Common package " ++ package ++
      " has a different implementation in the loader and the application; " ++
      "non-matching global symbols: " ++ ", ".intercalate names)
  | wrongKind => none
  | badValue => none
  | files _ => none

end Failure
end DualImage
