import DualImage.Build
import DualImage.Proofs.Half.Frame
import DualImage.Proofs.LoaderImage.Exports

/-! The stages of a split build: both halves up to their symbols, then the comparison of these or the
loader image of an earlier build, then the application's link. -/
namespace DualImage.Build
open World

/-- Both halves with what was extracted of them. -/
structure Extraction where
  loader : Half
  application : Half
  loaderSymbols : SymbolTable
  applicationSymbols : SymbolTable
  linked : SymbolTable

/-- No global data symbol is in dispute between the halves. -/
def Extraction.Peaceful (x : Extraction) : Prop :=
  (x.loaderSymbols.compare true x.applicationSymbols).conflicts = []

/-- The stages before the halves are compared. -/
def halves (plan : Target.Plan) (loader : Half) : BuildAction Extraction := do
  let (loaderSymbols, linked) ← onLoader loader (buildLoader plan)
  let loader := (← get).1.loader.getD loader
  let applicationSymbols ← onApplication buildApplication
  return ⟨loader, (← get).1.application, loaderSymbols, applicationSymbols, linked⟩

/-- The stages from the comparison on. -/
def finish (plan : Target.Plan) (l : Target.LoaderPlan) (x : Extraction) :
    BuildAction BuildResult := do
  let (exported, regenerated) ← onWorld
    (reconcile x.loader x.application x.loaderSymbols x.applicationSymbols x.linked)
  let skip ← onWorld (lift (packageNames [plan.application.name, l.part.name]))
  onWorld (refusePartlyShared x.loaderSymbols x.applicationSymbols exported skip)
  let keep ← onWorld (lift (packageNames [plan.board.name, plan.application.name]))
  let common := Sharing.commonPackages x.applicationSymbols exported keep
  onWorld (sayCommon common)
  removeFromApplication common
  let application := (← get).1.application
  let binary ← onWorld (application.link l.secondScript [x.loader.loaderImage])
  onWorld do
    reportDifferences x.loader application
    saySuccess "Loader" x.loader.binary
    saySuccess "App" binary
  return {
    application := binary
    applicationSymbols := x.applicationSymbols
    loader := some x.loader.binary
    loaderImage := some x.loader.loaderImage
    exported
    commonPackages := common
    regenerated }

theorem split_eq (plan : Target.Plan) (l : Target.LoaderPlan) (loader : Half) :
    split plan l loader = halves plan loader >>= finish plan l := by
  funext s
  unfold split halves
  simp only [Action.bind_apply]
  cases onLoader loader (buildLoader plan) s with
  | error f t => rfl
  | ok y t =>
    have hget : (MonadState.get : BuildAction (Workshop × World)) t = .ok t t := rfl
    simp only [hget]
    cases onApplication buildApplication t <;> rfl

end DualImage.Build
