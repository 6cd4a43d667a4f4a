import DualImage.Workspace.World

/-! The loader's symbols that the application may link against. -/
namespace DualImage.LoaderImage
open World

/-- The loader's own start. Through them the whole loader would come into the application. -/
def rootSymbols : List String := ["_start", "main", "__StackTop", "__StackLimit", "__HeapLimit"]

/-- Bounds of the loader's memory, made by its link. -/
def boundarySymbols : List String :=
  ["__HeapBase", "__bss_start__", "__bss_end__", "__data_start__", "__data_end__",
    "__isr_vector_start", "__isr_vector_end", "__etext"]

/-- The application's link makes boundary symbols too, so the loader's carry this ending. -/
def loaderEnding : String := "_loader"

/-- Stands for a boundary symbol that the linked loader does not have. -/
def absolute (name : String) : Symbol :=
  { name
    code := "g      "
    sectionName := "*ABS*"
    size := 0
    address := 0
    package := Symbol.binaryPackage
    suffix := Symbol.binarySuffix }

def boundarySymbol (linked : SymbolTable) (name : String) : Symbol :=
  (linked.find? name).getD (absolute name)

/-- Shared symbols that the linked loader still holds unchanged, and all boundary symbols. -/
def exportsOf (retained : SymbolTable) (linked : SymbolTable) : SymbolTable :=
  boundarySymbols.foldl (fun t name => t.add (boundarySymbol linked name)) retained

def withoutRoots (t : SymbolTable) : SymbolTable := rootSymbols.foldl SymbolTable.remove t

/-- Loader and application have to agree on flags, size and package, and the linked loader on flags
and size. Global data on which the first two disagree is refused. -/
def exports (loader application linked : SymbolTable) : Action SymbolTable := do
  let both ← compare true loader application
  refuseConflicts both.conflicts
  say Console.normal (toString both.shared.size ++ " symbols matched in library files")
  let retained ← compare false (withoutRoots both.shared) linked
  sayAll Console.verbose (retained.conflicts.map fun p => "Not exporting " ++ p.describe)
  return exportsOf retained.shared linked

/-- The name in the application's view of a symbol of the loader image. -/
def importedName (name : String) : String :=
  match boundarySymbols.find? (· ++ loaderEnding == name) with
  | some boundary => boundary
  | none => name

def importsOf (listed : SymbolTable) : SymbolTable :=
  .ofList ((listed.symbols.filter (!·.isLocal)).map fun s => { s with name := importedName s.name })

end DualImage.LoaderImage
