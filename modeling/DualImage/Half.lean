import DualImage.Compiler.Commands

/-! One half of an image, loader or application: an archive for each package, and their link. -/
namespace DualImage

/-- The archives are those made so far, by package name. -/
structure Half where
  name : String
  buildDir : Path
  boardName : Document
  compiler : Compiler
  packages : List Package
  features : List Document
  archives : List (Text × Path)
  deriving Inhabited, Repr

/-- Runs an action on a part of the state. -/
def within {σ τ α : Type} (part : σ → τ) (back : σ → τ → σ) (a : EStateM Failure τ α) :
    EStateM Failure σ α := fun s =>
  match a (part s) with
  | .ok x t => .ok x (back s t)
  | .error f t => .error f (back s t)

abbrev HalfAction := EStateM Failure (Half × World)

def HalfAction.ofAction {α : Type} (a : Action α) : HalfAction α :=
  within (·.2) (fun s w => (s.1, w)) a

/-- Slashes of a package name become underscores. Only text can name a file. -/
def Package.fileName? (name : Document) : Option Text :=
  name.text?.map fun t => ⟨t.codes.map fun c => if c = .character '/' then .character '_' else c⟩

namespace Half
open World (lift)

def directory (h : Half) : Path := h.buildDir.child h.name

/-- The linked binary. -/
def binary (h : Half) : Path := h.directory.child (h.name ++ ".elf")

/-- The copy of the linked loader that the application links against. -/
def loaderImage (h : Half) : Path := h.directory.child (h.name ++ "_rom.elf")

def fileName (name : Document) : Except Failure Text :=
  match Package.fileName? name with
  | some t => pure t
  | none => throw .wrongKind

def archivePath (h : Half) (package : Document) : Except Failure Path := do
  return (h.directory.child "lib").child ((← fileName package) ++ Symbol.archiveSuffix)

def objectDir (h : Half) (package : Document) : Except Failure Path := do
  return (h.directory.child "obj").child (← fileName package)

/-- The archive recorded for a package. A name that cannot be a key cannot be looked up. -/
def archive? (h : Half) (package : Document) : Except Failure (Option Path) :=
  if package.canBeKey then pure (package.text?.bind (List.lookup · h.archives))
  else throw .wrongKind

/-- The recorded archives in the order of the packages. -/
def archivePaths (h : Half) : Except Failure (List Path) := do
  return (← h.packages.mapM fun p => h.archive? p.name).filterMap id

def record (h : Half) (package : Text) (path : Path) : Half :=
  { h with archives := (package, path) :: h.archives.filter (·.1 != package) }

/-- Leaves packages out of later links, except the board's. -/
def removePackages (h : Half) (names : List Text) : Except Failure Half := do
  if !h.boardName.canBeKey then throw .wrongKind
  if h.packages.any (!·.name.canBeKey) then throw .wrongKind
  let gone := names.filter (!h.boardName.isText ·)
  return { h with packages := h.packages.filter fun p => !gone.any p.name.isText }

def buildPackage (package : Package) : HalfAction Unit := do
  let h := (← get).1
  let objectDir ← .ofAction (lift (h.objectDir package.name))
  let objects ← .ofAction (h.compiler.compile package objectDir h.features)
  let name := package.name.text?.getD ""
  if objects.isEmpty then
    .ofAction (World.say Console.verbose ("Package " ++ name ++ " has no objects"))
  else
    let path ← .ofAction do h.compiler.archive objects (← lift (h.archivePath package.name))
    modify fun s => (s.1.record name path, s.2)

/-- Compiles and archives every package. -/
def build : HalfAction Unit := do
  let h := (← get).1
  .ofAction (World.say Console.normal
    ("Building " ++ h.name ++ " (" ++ toString h.packages.length ++ " packages)"))
  h.packages.forM buildPackage

def link (h : Half) (script : Path) (symbolFiles : List Path) : Action Path := do
  h.compiler.link (← lift h.archivePaths) script h.binary symbolFiles

/-- One package's symbols folded into those of the packages before it. -/
def extractPackage (h : Half) (symbols : SymbolTable) (package : Package) : Action SymbolTable := do
  match ← lift (h.archive? package.name) with
  | none => return symbols
  | some path =>
    let origin := .ofArchive (package.name.text?.getD "")
    let listed ← World.readListing origin (← h.compiler.dumpSymbols path)
    World.settle (symbols.merge listed)

/-- The memory symbols of all recorded archives, resolved as the linker does. -/
def extractSymbols (h : Half) : Action SymbolTable :=
  h.packages.foldlM h.extractPackage ∅

/-- All defined symbols of a linked binary. -/
def readBinary (h : Half) (path : Path) : Action SymbolTable := do
  World.readListing .ofBinary (← h.compiler.dumpSymbols path)

end Half
end DualImage
