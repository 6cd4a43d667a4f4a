import DualImage.Document.Written
import DualImage.Failure

/-! Targets: the board, the compiler and the packages of both parts of an image. -/
namespace DualImage

/-- The form of a value in a message, a path or a command. -/
def Document.shown (d : Document) : Except Failure Text :=
  match d.shown? with
  | some t => pure t
  | none => throw .badValue

/-- Sources that go into one archive. Names and flags are not checked while a target is read. -/
structure Package where
  name : Document
  sources : List Path
  flags : List Document
  includeDirs : List Path
  deriving Inhabited, Repr

structure Compiler where
  toolPrefix : Document
  compileFlags : List Document
  linkFlags : List Document
  deriving Inhabited, Repr

structure Board where
  package : Package
  linkerScript : Option Path
  secondScript : Option Path
  features : List Document
  deriving Inhabited, Repr

def Board.name (b : Board) : Document := b.package.name

/-- The packages of the application or of the loader. -/
structure Part where
  name : Document
  packages : List Package
  deriving Inhabited, Repr

structure Target where
  name : Document
  buildDir : Path
  compiler : Option Compiler
  board : Option Board
  application : Option Part
  loader : Option Part
  features : List Document
  deriving Inhabited, Repr

namespace Target

/-- An image with a loader is split in two. -/
def isSplit (t : Target) : Bool := t.loader.isSome

/-- A loader with the script for linking the application beside it. -/
structure LoaderPlan where
  part : Part
  secondScript : Path

/-- All that a build needs of a target. -/
structure Plan where
  board : Board
  compiler : Compiler
  application : Part
  linkerScript : Path
  loader : Option LoaderPlan

def refuse {α : Type} (fault : Text → TargetFault) (name : Document) : Except Failure α := do
  throw (.target (fault (← name.shown)))

/-- Faults are found in this order: board, compiler, application, linker script, second script. -/
def plan (t : Target) : Except Failure Plan := do
  let some board := t.board | refuse .noBoard t.name
  let some compiler := t.compiler | refuse .noCompiler t.name
  let some application := t.application | refuse .noApplication t.name
  let some linkerScript := board.linkerScript | refuse .noLinkerScript board.name
  let loader ← match t.loader with
    | none => pure none
    | some part => match board.secondScript with
      | none => refuse .noSecondScript board.name
      | some secondScript => pure (some ⟨part, secondScript⟩)
  return { board, compiler, application, linkerScript, loader }

end Target
end DualImage
