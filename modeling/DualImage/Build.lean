import DualImage.Half
import DualImage.LoaderImage.Build
import DualImage.Sharing

/-! Building a target, as one image or as loader and application. The application of a split image
links against the loader's copies of the packages that both halves share. -/
namespace DualImage

/-- A target made ready: what has to be built, and how far it is. -/
structure Workshop where
  plan : Target.Plan
  application : Half
  loader : Option Half

/-- What a build made. A single image has neither loader nor exports. -/
structure BuildResult where
  application : Path
  applicationSymbols : SymbolTable
  loader : Option Path
  loaderImage : Option Path
  exported : SymbolTable
  commonPackages : List Text
  regenerated : Bool

abbrev BuildAction := EStateM Failure (Workshop × World)

namespace Workshop

/-- The board's package comes first in both halves. -/
def ofPlan (t : Target) (plan : Target.Plan) : Workshop :=
  let half (name : String) (part : Part) (feature : List Text) : Half :=
    { name
      buildDir := t.buildDir
      boardName := plan.board.name
      compiler := plan.compiler
      packages := plan.board.package :: part.packages
      features := t.features ++ plan.board.features ++ feature.map .text
      archives := [] }
  { plan
    application := half "app" plan.application
      (if plan.loader.isSome then ["SPLIT_APPLICATION"] else [])
    loader := plan.loader.map fun l => half "loader" l.part ["SPLIT_LOADER"] }

def ofTarget (t : Target) : Except Failure Workshop := t.plan.map (ofPlan t)

end Workshop

namespace Build
open World

def onWorld {α : Type} (a : Action α) : BuildAction α :=
  within (·.2) (fun s w => (s.1, w)) a

def onApplication {α : Type} (a : HalfAction α) : BuildAction α :=
  within (fun s => (s.1.application, s.2)) (fun s t => ({ s.1 with application := t.1 }, t.2)) a

/-- The loader's half as the state, kept in the workshop afterwards. -/
def onLoader {α : Type} (loader : Half) (a : HalfAction α) : BuildAction α :=
  within (fun s => (loader, s.2)) (fun s t => ({ s.1 with loader := some t.1 }, t.2)) a

def onHalf {α : Type} (a : Half → Action α) : HalfAction α := do
  let h := (← get).1
  .ofAction (a h)

def saySuccess (role : String) (binary : Path) : Action Unit :=
  say Console.normal (role ++ " successfully built: " ++ binary.toText)

def single (plan : Target.Plan) : HalfAction BuildResult := do
  Half.build
  let binary ← onHalf (·.link plan.linkerScript [])
  .ofAction (saySuccess "App" binary)
  return {
    application := binary
    applicationSymbols := ∅
    loader := none
    loaderImage := none
    exported := ∅
    commonPackages := []
    regenerated := false }

/-- Symbols of the loader's packages, and those of the linked loader. -/
def buildLoader (plan : Target.Plan) : HalfAction (SymbolTable × SymbolTable) := do
  Half.build
  discard <| onHalf (·.link plan.linkerScript [])
  let symbols ← onHalf (·.extractSymbols)
  let linked ← onHalf fun h => h.readBinary h.binary
  return (symbols, linked)

def buildApplication : HalfAction SymbolTable := do
  Half.build
  onHalf (·.extractSymbols)

/-- The exports, and whether the loader image had to be made. An image that is up to date says
itself what it exports. -/
def reconcile (loader application : Half) (loaderSymbols applicationSymbols linked : SymbolTable) :
    Action (SymbolTable × Bool) := do
  let image := loader.loaderImage
  let archives := (← lift loader.archivePaths) ++ (← lift application.archivePaths)
  if ← isLoaderImageStale image loader.binary archives then
    let exported ← LoaderImage.build loader.compiler loader.binary image loaderSymbols
      applicationSymbols linked
    return (exported, true)
  else
    say Console.verbose (image.name ++ " is up to date")
    return (← LoaderImage.readExports loader.compiler image, false)

/-- Names as text. One that cannot be a key is refused, and one that is no text names no package. -/
def packageNames (names : List Document) : Except Failure (List Text) :=
  if names.all (·.canBeKey) then pure (names.filterMap (·.text?)) else throw .wrongKind

/-- Fails on a package that is shared only in part. -/
def refusePartlyShared (loader application exported : SymbolTable) (skip : List Text) :
    Action Unit := do
  if let some (package, symbols) := Sharing.partlyShared? loader application exported skip then
    say Console.quiet ("We have non-matching global symbols in " ++ package)
    sayAll Console.quiet (symbols.map fun s => "  " ++ s.describe)
    throw (.ofPartlyShared package (symbols.map (·.name)))

/-- In a verbose build, the global symbols that the two binaries still define differently. -/
def reportDifferences (loader application : Half) : Action Unit := do
  if Console.verbose ≤ (← get).console.verbosity then
    let applicationSymbols ← application.readBinary application.binary
    let loaderSymbols ← loader.readBinary loader.binary
    let c ← compare false applicationSymbols loaderSymbols
    let differing := applicationSymbols.filter fun s =>
      loaderSymbols.contains s.name && !c.shared.contains s.name
    sayAll Console.verbose (differing.globalData.report "non matching Global Data symbols")
    sayAll Console.verbose (differing.globalFunctions.report "non matching Global Code symbols")

def sayCommon (packages : List Text) : Action Unit := do
  if !packages.isEmpty then
    say Console.normal ("Linking " ++ toString packages.length ++ " packages from the loader: " ++
      Text.intercalate ", " packages)

def removeFromApplication (names : List Text) : BuildAction Unit := do
  let h ← onWorld (lift ((← get).1.application.removePackages names))
  modify fun s => ({ s.1 with application := h }, s.2)

/-- Loader, application, loader image, and the application's link against it. -/
def split (plan : Target.Plan) (l : Target.LoaderPlan) (loader : Half) :
    BuildAction BuildResult := do
  let (loaderSymbols, linked) ← onLoader loader (buildLoader plan)
  let loader := (← get).1.loader.getD loader
  let applicationSymbols ← onApplication buildApplication
  let (exported, regenerated) ← onWorld
    (reconcile loader (← get).1.application loaderSymbols applicationSymbols linked)
  let skip ← onWorld (lift (packageNames [plan.application.name, l.part.name]))
  onWorld (refusePartlyShared loaderSymbols applicationSymbols exported skip)
  let keep ← onWorld (lift (packageNames [plan.board.name, plan.application.name]))
  let common := Sharing.commonPackages applicationSymbols exported keep
  onWorld (sayCommon common)
  removeFromApplication common
  let application := (← get).1.application
  let binary ← onWorld (application.link l.secondScript [loader.loaderImage])
  onWorld do
    reportDifferences loader application
    saySuccess "Loader" loader.binary
    saySuccess "App" binary
  return {
    application := binary
    applicationSymbols
    loader := some loader.binary
    loaderImage := some loader.loaderImage
    exported
    commonPackages := common
    regenerated }

/-- Builds what the workshop was made for. The workshop keeps its archives for a later build, and
packages that a build left out stay out. -/
def run : BuildAction BuildResult := do
  let workshop := (← get).1
  match workshop.loader, workshop.plan.loader with
  | some loader, some l => split workshop.plan l loader
  | _, _ => onApplication (single workshop.plan)

/-- A build of a target from the start. -/
def ofTarget (t : Target) : Action BuildResult := do
  let workshop ← lift (Workshop.ofTarget t)
  fun w => match run (workshop, w) with
    | .ok r s => .ok r s.2
    | .error f s => .error f s.2

end Build
end DualImage
