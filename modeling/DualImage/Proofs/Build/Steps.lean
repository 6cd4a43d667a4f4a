import DualImage.Proofs.Build.Stages
import DualImage.Proofs.Half.Course

/-! What the stages of a successful build hand on to each other. -/
namespace DualImage.Build
open World
variable {α : Type} {plan : Target.Plan} {l : Target.LoaderPlan}

theorem onHalf_eq_ok {a : Half → Action α} {s u : Half × World} {y : α}
    (hr : onHalf a s = .ok y u) : u.1 = s.1 ∧ a s.1 s.2 = .ok y u.2 :=
  Half.ofAction_eq_ok_iff.1 (hr : HalfAction.ofAction (a s.1) s = .ok y u)

theorem onWorld_eq_ok {a : Action α} {s u : Workshop × World} {y : α}
    (hr : onWorld a s = .ok y u) : u.1 = s.1 ∧ a s.2 = .ok y u.2 := by
  obtain ⟨w, hw, rfl⟩ := within_eq_ok_iff.1 hr
  exact ⟨rfl, hw⟩

/-- A single image is one half, built and linked. -/
theorem single_steps {s s' : Half × World} {result : BuildResult}
    (hr : single plan s = .ok result s') :
    ∃ w₁ w₂, Half.build s = .ok () (s'.1, w₁) ∧
      s'.1.link plan.linkerScript [] w₁ = .ok result.application w₂ ∧ Spoken w₂ s'.2 := by
  obtain ⟨_, s₁, hbuild, hr⟩ := Action.bind_eq_ok_iff.1 hr
  obtain ⟨binary, s₂, hlink, hr⟩ := Action.bind_eq_ok_iff.1 hr
  obtain ⟨hsame₂, hlink⟩ := onHalf_eq_ok hlink
  obtain ⟨_, s₃, hsay, hr⟩ := Action.bind_eq_ok_iff.1 hr
  obtain ⟨hsame₃, hsay⟩ := Half.ofAction_eq_ok_iff.1 hsay
  cases hr
  rw [hsame₃, hsame₂]
  exact ⟨s₁.2, s₂.2, hbuild, hlink, ((Answers.say ..).of_ok hsay).2⟩

/-- The loader's half is built and linked, and then its archives and its binary are read. -/
theorem buildLoader_steps {s s' : Half × World} {symbols linked : SymbolTable}
    (hr : buildLoader plan s = .ok (symbols, linked) s') :
    ∃ w₁ w₂ w₃, Half.build s = .ok () (s'.1, w₁) ∧
      (∃ binary, s'.1.link plan.linkerScript [] w₁ = .ok binary w₂) ∧
      s'.1.extractSymbols w₂ = .ok symbols w₃ ∧
      s'.1.readBinary s'.1.binary w₃ = .ok linked s'.2 := by
  obtain ⟨_, s₁, hbuild, hr⟩ := Action.bind_eq_ok_iff.1 hr
  obtain ⟨_, s₂, hlink, hr⟩ := Action.bind_eq_ok_iff.1 hr
  obtain ⟨binary, hlink⟩ := Action.discard_eq_ok_iff.1 hlink
  obtain ⟨hsame₂, hlink⟩ := onHalf_eq_ok hlink
  obtain ⟨_, s₃, hextract, hr⟩ := Action.bind_eq_ok_iff.1 hr
  obtain ⟨hsame₃, hextract⟩ := onHalf_eq_ok hextract
  obtain ⟨_, s₄, hread, hr⟩ := Action.bind_eq_ok_iff.1 hr
  obtain ⟨hsame₄, hread⟩ := onHalf_eq_ok hread
  cases hr
  rw [hsame₄, hsame₃, hsame₂]
  rw [hsame₂] at hextract
  rw [hsame₃, hsame₂] at hread
  exact ⟨s₁.2, s₂.2, s₃.2, hbuild, ⟨binary, hlink⟩, hextract, hread⟩

theorem buildApplication_steps {s s' : Half × World} {symbols : SymbolTable}
    (hr : buildApplication s = .ok symbols s') :
    ∃ w, Half.build s = .ok () (s'.1, w) ∧ s'.1.extractSymbols w = .ok symbols s'.2 := by
  obtain ⟨_, s₁, hbuild, hr⟩ := Action.bind_eq_ok_iff.1 hr
  obtain ⟨hsame, hextract⟩ := onHalf_eq_ok hr
  rw [hsame]
  exact ⟨s₁.2, hbuild, hextract⟩

/-- The loader comes first, and then the application. -/
theorem halves_steps {loader : Half} {x : Extraction} {s s' : Workshop × World}
    (hr : halves plan loader s = .ok x s') :
    s'.1 = { s.1 with application := x.application, loader := some x.loader } ∧
      ∃ w, buildLoader plan (loader, s.2) = .ok (x.loaderSymbols, x.linked) (x.loader, w) ∧
        buildApplication (s.1.application, w) = .ok x.applicationSymbols (x.application, s'.2) := by
  obtain ⟨⟨loaderSymbols, linked⟩, s₁, hloader, hr⟩ := Action.bind_eq_ok_iff.1 hr
  obtain ⟨t, hbuilt, rfl⟩ := within_eq_ok_iff.1 hloader
  obtain ⟨_, _, hget, hr⟩ := Action.bind_eq_ok_iff.1 hr
  cases hget
  obtain ⟨applicationSymbols, s₂, happlication, hr⟩ := Action.bind_eq_ok_iff.1 hr
  obtain ⟨u, happlied, rfl⟩ := within_eq_ok_iff.1 happlication
  obtain ⟨_, _, hget, hr⟩ := Action.bind_eq_ok_iff.1 hr
  cases hget
  cases hr
  exact ⟨rfl, t.2, hbuilt, happlied⟩

/-- What is decided before the application is linked: the exports, whether the loader image was made
for them, the packages that the loader has for the application, and the half without them. -/
structure Settlement where
  exported : SymbolTable
  regenerated : Bool
  commonPackages : List Text
  application : Half

/-- From the comparison of the halves to the choice of the application's archives. -/
def settle (plan : Target.Plan) (l : Target.LoaderPlan) (x : Extraction) :
    BuildAction Settlement := do
  let (exported, regenerated) ← onWorld
    (reconcile x.loader x.application x.loaderSymbols x.applicationSymbols x.linked)
  let skip ← onWorld (lift (packageNames [plan.application.name, l.part.name]))
  onWorld (refusePartlyShared x.loaderSymbols x.applicationSymbols exported skip)
  let keep ← onWorld (lift (packageNames [plan.board.name, plan.application.name]))
  let common := Sharing.commonPackages x.applicationSymbols exported keep
  onWorld (sayCommon common)
  removeFromApplication common
  return ⟨exported, regenerated, common, (← get).1.application⟩

/-- The link of the application, and the report on the build. -/
def conclude (l : Target.LoaderPlan) (x : Extraction) (j : Settlement) :
    BuildAction BuildResult := do
  let binary ← onWorld (j.application.link l.secondScript [x.loader.loaderImage])
  onWorld do
    reportDifferences x.loader j.application
    saySuccess "Loader" x.loader.binary
    saySuccess "App" binary
  return {
    application := binary
    applicationSymbols := x.applicationSymbols
    loader := some x.loader.binary
    loaderImage := some x.loader.loaderImage
    exported := j.exported
    commonPackages := j.commonPackages
    regenerated := j.regenerated }

theorem finish_eq (plan : Target.Plan) (l : Target.LoaderPlan) (x : Extraction) :
    finish plan l x = settle plan l x >>= conclude l x := by
  simp only [finish, settle, bind_assoc, pure_bind]
  rfl

/-- The archives of both halves with their packages. -/
def Extraction.shelf (x : Extraction) : List (Text × Path) := x.loader.shelf ++ x.application.shelf

/-- What the loader image depends on. -/
def Extraction.inputs (x : Extraction) : List Path := x.loader.binary :: x.shelf.map (·.2)

/-- The loader image is a copy of the linked loader, made for the exports and then edited. -/
theorem build_steps {c : Compiler} {source image : Path}
    {loader application linked exported : SymbolTable} {w w' : World}
    (hr : LoaderImage.build c source image loader application linked w = .ok exported w') :
    ∃ w₁ w₂ w₃ p, LoaderImage.exports loader application linked w = .ok exported w₁ ∧
      Spoken w₁ w₂ ∧ c.copyKeeping source exported.names image w₂ = .ok p w₃ ∧
      c.renameSymbols image LoaderImage.boundarySymbols LoaderImage.loaderEnding w₃ = .ok () w' := by
  obtain ⟨made, w₁, hexports, hr⟩ := Action.bind_eq_ok_iff.1 hr
  obtain ⟨_, v₁, hsay, hr⟩ := Action.bind_eq_ok_iff.1 hr
  obtain ⟨_, v₂, hreport, hr⟩ := Action.bind_eq_ok_iff.1 hr
  obtain ⟨_, v₃, hcopy, hr⟩ := Action.bind_eq_ok_iff.1 hr
  obtain ⟨p, hcopy⟩ := Action.discard_eq_ok_iff.1 hcopy
  obtain ⟨_, v₄, hrename, hr⟩ := Action.bind_eq_ok_iff.1 hr
  cases hr
  refine ⟨w₁, v₂, v₃, p, hexports, ?_, hcopy, hrename⟩
  exact trans_of Spoken ((Answers.say ..).of_ok hsay).2 ((Answers.sayAll ..).of_ok hreport).2

/-- The loader image is made when it is out of date, and read otherwise. -/
theorem reconcile_steps {x : Extraction} {exported : SymbolTable} {regenerated : Bool} {w w' : World}
    (hr : reconcile x.loader x.application x.loaderSymbols x.applicationSymbols x.linked w =
      .ok (exported, regenerated) w') :
    ∃ w₁, isStale x.loader.loaderImage x.inputs w = .ok regenerated w₁ ∧
      if regenerated then
        LoaderImage.build x.loader.compiler x.loader.binary x.loader.loaderImage x.loaderSymbols
          x.applicationSymbols x.linked w₁ = .ok exported w'
      else ∃ w₂, Spoken w₁ w₂ ∧
        LoaderImage.readExports x.loader.compiler x.loader.loaderImage w₂ = .ok exported w' := by
  obtain ⟨ofLoader, w₁, hfirst, hr⟩ := Action.bind_eq_ok_iff.1 hr
  obtain ⟨hloader, hw₁⟩ := lift_eq_ok_iff.1 hfirst
  obtain ⟨ofApplication, w₂, hsecond, hr⟩ := Action.bind_eq_ok_iff.1 hr
  obtain ⟨happlication, hw₂⟩ := lift_eq_ok_iff.1 hsecond
  rw [hw₂, hw₁] at hr
  obtain ⟨stale, w₃, hstale, hr⟩ := Action.bind_eq_ok_iff.1 hr
  have hinputs : x.inputs = x.loader.binary :: (ofLoader ++ ofApplication) := by
    rw [Half.archivePaths_eq_ok hloader, Half.archivePaths_eq_ok happlication, ← List.map_append]
    rfl
  rw [hinputs]
  cases stale with
  | true =>
    obtain ⟨_, w₄, hbuild, hr⟩ := Action.bind_eq_ok_iff.1 hr
    cases hr
    exact ⟨w₃, hstale, hbuild⟩
  | false =>
    obtain ⟨_, w₄, hsay, hr⟩ := Action.bind_eq_ok_iff.1 hr
    obtain ⟨_, w₅, hread, hr⟩ := Action.bind_eq_ok_iff.1 hr
    cases hr
    exact ⟨w₃, hstale, w₄, ((Answers.say ..).of_ok hsay).2, hread⟩

theorem refusePartlyShared_eq_ok {loader application exported : SymbolTable} {skip : List Text}
    {w w' : World} (hr : refusePartlyShared loader application exported skip w = .ok () w') :
    w' = w := by
  rw [refusePartlyShared] at hr
  cases hpartly : Sharing.partlyShared? loader application exported skip with
  | none =>
    rw [hpartly] at hr
    cases hr
    rfl
  | some partly =>
    rw [hpartly] at hr
    obtain ⟨_, w₁, -, hr⟩ := Action.bind_eq_ok_iff.1 hr
    obtain ⟨_, w₂, -, hr⟩ := Action.bind_eq_ok_iff.1 hr
    cases hr

theorem sayCommon_eq_ok {packages : List Text} {w w' : World}
    (hr : sayCommon packages w = .ok () w') : Spoken w w' := by
  unfold sayCommon at hr
  split at hr
  · exact ((Answers.say ..).of_ok hr).2
  · cases hr
    exact refl_of Spoken _

theorem removeFromApplication_eq_ok {names : List Text} {s s' : Workshop × World}
    (hr : removeFromApplication names s = .ok () s') : ∃ h,
      s.1.application.removePackages names = .ok h ∧ s' = ({ s.1 with application := h }, s.2) := by
  obtain ⟨_, _, hget, hr⟩ := Action.bind_eq_ok_iff.1 hr
  cases hget
  obtain ⟨h, t, hlift, hr⟩ := Action.bind_eq_ok_iff.1 hr
  obtain ⟨hsame, hlift⟩ := onWorld_eq_ok hlift
  obtain ⟨hremoved, hworld⟩ := lift_eq_ok_iff.1 hlift
  cases hr
  refine ⟨h, hremoved, ?_⟩
  dsimp only
  rw [hsame, hworld]

/-- What is decided about the packages, and that the half of the application is changed for it. -/
theorem settle_steps {x : Extraction} {j : Settlement} {s s' : Workshop × World}
    (hr : settle plan l x s = .ok j s') :
    s'.1 = { s.1 with application := j.application } ∧
      s.1.application.removePackages j.commonPackages = .ok j.application ∧
      (∃ keep, packageNames [plan.board.name, plan.application.name] = .ok keep ∧
        j.commonPackages = Sharing.commonPackages x.applicationSymbols j.exported keep) ∧
      ∃ w, reconcile x.loader x.application x.loaderSymbols x.applicationSymbols x.linked s.2 =
        .ok (j.exported, j.regenerated) w ∧ Spoken w s'.2 := by
  obtain ⟨⟨exported, regenerated⟩, s₁, hreconcile, hr⟩ := Action.bind_eq_ok_iff.1 hr
  obtain ⟨hsame₁, hreconcile⟩ := onWorld_eq_ok hreconcile
  obtain ⟨skip, s₂, hskip, hr⟩ := Action.bind_eq_ok_iff.1 hr
  obtain ⟨hsame₂, hskip⟩ := onWorld_eq_ok hskip
  obtain ⟨-, hworld₂⟩ := lift_eq_ok_iff.1 hskip
  obtain ⟨_, s₃, hrefuse, hr⟩ := Action.bind_eq_ok_iff.1 hr
  obtain ⟨hsame₃, hrefuse⟩ := onWorld_eq_ok hrefuse
  have hworld₃ := refusePartlyShared_eq_ok hrefuse
  obtain ⟨keep, s₄, hkeep, hr⟩ := Action.bind_eq_ok_iff.1 hr
  obtain ⟨hsame₄, hkeep⟩ := onWorld_eq_ok hkeep
  obtain ⟨hkeep, hworld₄⟩ := lift_eq_ok_iff.1 hkeep
  obtain ⟨_, s₅, hsay, hr⟩ := Action.bind_eq_ok_iff.1 hr
  obtain ⟨hsame₅, hsay⟩ := onWorld_eq_ok hsay
  have hspoken := sayCommon_eq_ok hsay
  obtain ⟨_, s₆, hremove, hr⟩ := Action.bind_eq_ok_iff.1 hr
  obtain ⟨h, hremoved, rfl⟩ := removeFromApplication_eq_ok hremove
  obtain ⟨_, _, hget, hr⟩ := Action.bind_eq_ok_iff.1 hr
  cases hget
  cases hr
  have hsame : s₅.1 = s.1 := by rw [hsame₅, hsame₄, hsame₃, hsame₂, hsame₁]
  rw [hworld₄, hworld₃, hworld₂] at hspoken
  rw [hsame] at hremoved
  refine ⟨?_, hremoved, ⟨keep, hkeep, rfl⟩, s₁.2, hreconcile, hspoken⟩
  dsimp only
  rw [hsame]

/-- The report on differences lists both binaries, in a verbose build. -/
theorem answers_reportDifferences (loader application : Half) (w : World) :
    Answers (Quiet Command.Lists) (reportDifferences loader application)
      (if Console.verbose ≤ w.console.verbosity then
        application.linkedTable w.tools >>= fun _ => loader.linkedTable w.tools >>= fun _ => .ok ()
      else .ok ()) w := by
  unfold reportDifferences
  have hget : Answers (Quiet Command.Lists) MonadState.get (.ok w) w := ⟨w, refl_of _ w, rfl⟩
  refine hget.andThen fun w₁ h₁ => ?_
  split
  · rw [← h₁.unmoved.tools]
    refine (application.answers_readBinary w₁).bind fun _ w₂ h₂ => ?_
    rw [← h₂.unmoved.tools]
    refine (loader.answers_readBinary w₂).bind fun _ w₃ h₃ => ?_
    refine ((Answers.compare ..).mono fun _ => Spoken.quiet).andThen fun w₄ h₄ => ?_
    refine ((Answers.sayAll ..).mono fun _ => Spoken.quiet).andThen fun w₅ h₅ => ?_
    exact (Answers.sayAll ..).mono fun _ => Spoken.quiet
  · exact .pure ()

/-- The application is linked as it was decided, and the result says what was decided. -/
theorem conclude_steps {x : Extraction} {j : Settlement} {result : BuildResult}
    {s s' : Workshop × World} (hr : conclude l x j s = .ok result s') :
    s'.1 = s.1 ∧ result.commonPackages = j.commonPackages ∧ result.exported = j.exported ∧
      result.regenerated = j.regenerated ∧ result.applicationSymbols = x.applicationSymbols ∧
      ∃ w, j.application.link l.secondScript [x.loader.loaderImage] s.2 =
        .ok result.application w ∧
      ∃ w', reportDifferences x.loader j.application w = .ok () w' ∧ Spoken w' s'.2 := by
  obtain ⟨binary, s₁, hlink, hr⟩ := Action.bind_eq_ok_iff.1 hr
  obtain ⟨hsame₁, hlink⟩ := onWorld_eq_ok hlink
  obtain ⟨_, s₂, hreport, hr⟩ := Action.bind_eq_ok_iff.1 hr
  obtain ⟨hsame₂, hreport⟩ := onWorld_eq_ok hreport
  obtain ⟨_, w₁, hdifferences, hreport⟩ := Action.bind_eq_ok_iff.1 hreport
  obtain ⟨_, w₂, hloader, happlication⟩ := Action.bind_eq_ok_iff.1 hreport
  cases hr
  refine ⟨hsame₂.trans hsame₁, rfl, rfl, rfl, rfl, s₁.2, hlink, w₁, hdifferences, ?_⟩
  exact trans_of Spoken ((Answers.say ..).of_ok hloader).2 ((Answers.say ..).of_ok happlication).2

end DualImage.Build
