import DualImage.Proofs.Build.Remains
import DualImage.Proofs.Build.Upkeep
import DualImage.Proofs.Compiler.Retrying
import DualImage.Proofs.Workspace.Hearing

/-! What a build makes of the verbosity. All its stages are blind to the console but the last one,
which lists the two binaries of a split image when it is verbose. The loader's binary was listed
before, with the same answer, so only the application's can still fail the build. -/
namespace DualImage
variable {α : Type} {tools : Tools} {level level' : Int}

namespace Compiler
variable (c : Compiler)

theorem blind_runTool (name : String) (arguments : Command) :
    Blind (Heard tools level level') (c.runTool name arguments) :=
  (Blind.lift _).bind fun _ => .run _

theorem blind_compileSource (package : Package) (defines : List Document) (source object : Path) :
    Blind (Heard tools level level') (c.compileSource package defines source object) := by
  refine (Blind.isStale _ _).bind fun stale => .ite ?_ (.pure _)
  exact (Blind.say _ _).bind fun _ => (Blind.lift _).bind fun _ => .discard (.run _)

theorem blind_compile (package : Package) (objectDir : Path) (defines : List Document) :
    Blind (Heard tools level level') (c.compile package objectDir defines) := by
  refine (Blind.attempt _).bind fun _ => (Blind.lift _).bind fun objects => ?_
  refine Blind.bind (.forM fun _ => ?_) fun _ => .pure _
  exact c.blind_compileSource package defines _ _

theorem blind_archive (objects : List Path) (path : Path) :
    Blind (Heard tools level level') (c.archive objects path) := by
  refine (Blind.attempt _).bind fun _ => (Blind.isStale _ _).bind fun stale => .ite ?_ (.pure _)
  have hrest : Blind (Heard tools level level') (do
      World.say Console.normal ("Archiving " ++ path.name)
      discard <| c.runTool "ar" ("rcs" :: path.toText :: objects.map Path.toText)
      return path) :=
    (Blind.say _ _).bind fun _ => (Blind.discard (c.blind_runTool _ _)).bind fun _ => .pure _
  refine .get_bind fun w w' h => ?_
  rw [h.disk]
  exact Blind.ite ((Blind.change _).bind fun _ => hrest) hrest w w' h

theorem blind_link (archives : List Path) (script output : Path) (symbolFiles : List Path) :
    Blind (Heard tools level level') (c.link archives script output symbolFiles) := by
  refine (Blind.attempt _).bind fun _ => (Blind.lift _).bind fun record => ?_
  refine (Blind.lift _).bind fun command => (Blind.discard (.attempt _)).bind fun _ => ?_
  refine (Blind.isStale _ _).bind fun stale => .ite ?_ ?_
  · exact (Blind.say _ _).bind fun _ => (Blind.discard (.run _)).bind fun _ => .pure _
  · exact (Blind.say _ _).bind fun _ => .pure _

theorem blind_dumpSymbols (artifact : Path) :
    Blind (Heard tools level level') (c.dumpSymbols artifact) := c.blind_runTool _ _

theorem blind_copyKeeping (source : Path) (keep : List String) (target : Path) :
    Blind (Heard tools level level') (c.copyKeeping source keep target) := by
  refine (Blind.lift _).bind fun list => (Blind.discard (.attempt _)).bind fun _ => ?_
  exact (Blind.discard (c.blind_runTool _ _)).bind fun _ => .pure _

theorem blind_renameSymbols (artifact : Path) (names : List String) (ending : String) :
    Blind (Heard tools level level') (c.renameSymbols artifact names ending) :=
  .discard (c.blind_runTool _ _)

end Compiler

namespace LoaderImage

theorem blind_exports (loader application linked : SymbolTable) :
    Blind (Heard tools level level') (exports loader application linked) := by
  refine (Blind.compare _ _ _).bind fun both => (Blind.refuseConflicts _).bind fun _ => ?_
  refine (Blind.say _ _).bind fun _ => (Blind.compare _ _ _).bind fun retained => ?_
  exact (Blind.sayAll _ _).bind fun _ => .pure _

theorem blind_build (c : Compiler) (source image : Path)
    (loader application linked : SymbolTable) :
    Blind (Heard tools level level') (build c source image loader application linked) := by
  refine (blind_exports _ _ _).bind fun exported => (Blind.say _ _).bind fun _ => ?_
  refine (Blind.sayAll _ _).bind fun _ => ?_
  refine (Blind.discard (c.blind_copyKeeping _ _ _)).bind fun _ => ?_
  exact (c.blind_renameSymbols _ _ _).bind fun _ => .pure _

theorem blind_readExports (c : Compiler) (image : Path) :
    Blind (Heard tools level level') (readExports c image) :=
  (c.blind_dumpSymbols image).bind fun _ => (Blind.readListing _ _).bind fun _ => .pure _

end LoaderImage

/-- In a state with a world in it, nothing but the console of the world differs. -/
def HeardBeside (σ : Type) (tools : Tools) (level level' : Int) (s t : σ × World) : Prop :=
  s.1 = t.1 ∧ Heard tools level level' s.2 t.2

namespace Half
variable (h : Half)

theorem blind_ofAction {a : Action α} (ha : Blind (Heard tools level level') a) :
    Blind (HeardBeside Half tools level level') (HalfAction.ofAction a) :=
  Blind.within ha (fun _ _ h => h.2) fun _ _ _ _ h h' => ⟨h.1, h'⟩

theorem blind_buildPackage (package : Package) :
    Blind (HeardBeside Half tools level level') (buildPackage package) := by
  refine .get_bind ?_
  rintro ⟨h, w⟩ ⟨_, w'⟩ ⟨rfl, hw⟩
  refine Blind.bind (blind_ofAction (.lift (h.objectDir package.name))) (fun objectDir => ?_)
    (h, w) (h, w') ⟨rfl, hw⟩
  refine (blind_ofAction (h.compiler.blind_compile _ _ _)).bind fun objects => .ite ?_ ?_
  · exact blind_ofAction (.say _ _)
  · refine (blind_ofAction ((Blind.lift _).bind fun _ => h.compiler.blind_archive _ _)).bind
      fun path => .modify ?_
    rintro ⟨g, v⟩ ⟨_, v'⟩ ⟨rfl, hv⟩
    exact ⟨rfl, hv⟩

theorem blind_build : Blind (HeardBeside Half tools level level') build := by
  refine .get_bind ?_
  rintro ⟨h, w⟩ ⟨_, w'⟩ ⟨rfl, hw⟩
  exact Blind.bind (blind_ofAction (.say _ _)) (fun _ => .forM blind_buildPackage) (h, w) (h, w')
    ⟨rfl, hw⟩

theorem blind_link (script : Path) (symbolFiles : List Path) :
    Blind (Heard tools level level') (h.link script symbolFiles) :=
  (Blind.lift _).bind fun _ => h.compiler.blind_link _ _ _ _

theorem blind_extractSymbols : Blind (Heard tools level level') h.extractSymbols := by
  refine .foldlM (fun symbols package => (Blind.lift _).bind fun path? => ?_) _
  cases path? with
  | none => exact .pure _
  | some path =>
    exact (h.compiler.blind_dumpSymbols path).bind fun _ => (Blind.readListing _ _).bind fun _ =>
      .settle _

theorem blind_readBinary (path : Path) : Blind (Heard tools level level') (h.readBinary path) :=
  (h.compiler.blind_dumpSymbols path).bind fun _ => .readListing _ _

end Half

namespace Build

theorem blind_onHalf {a : Half → Action α} (ha : ∀ h, Blind (Heard tools level level') (a h)) :
    Blind (HeardBeside Half tools level level') (onHalf a) := by
  refine .get_bind ?_
  rintro ⟨h, w⟩ ⟨_, w'⟩ ⟨rfl, hw⟩
  exact Half.blind_ofAction (ha h) _ _ ⟨rfl, hw⟩

theorem blind_onWorld {a : Action α} (ha : Blind (Heard tools level level') a) :
    Blind (HeardBeside Workshop tools level level') (onWorld a) :=
  Blind.within ha (fun _ _ h => h.2) fun _ _ _ _ h h' => ⟨h.1, h'⟩

theorem blind_onApplication {a : HalfAction α}
    (ha : Blind (HeardBeside Half tools level level') a) :
    Blind (HeardBeside Workshop tools level level') (onApplication a) := by
  refine Blind.within ha ?_ ?_
  · rintro ⟨s, w⟩ ⟨_, w'⟩ ⟨rfl, hw⟩
    exact ⟨rfl, hw⟩
  · rintro ⟨s, w⟩ ⟨_, w'⟩ ⟨h, v⟩ ⟨_, v'⟩ ⟨rfl, -⟩ ⟨rfl, hv⟩
    exact ⟨rfl, hv⟩

theorem blind_onLoader (loader : Half) {a : HalfAction α}
    (ha : Blind (HeardBeside Half tools level level') a) :
    Blind (HeardBeside Workshop tools level level') (onLoader loader a) := by
  refine Blind.within ha (fun _ _ h => ⟨rfl, h.2⟩) ?_
  rintro ⟨s, w⟩ ⟨_, w'⟩ ⟨h, v⟩ ⟨_, v'⟩ ⟨rfl, -⟩ ⟨rfl, hv⟩
  exact ⟨rfl, hv⟩

theorem blind_single (plan : Target.Plan) :
    Blind (HeardBeside Half tools level level') (single plan) := by
  refine Half.blind_build.bind fun _ => (blind_onHalf fun h => h.blind_link _ _).bind fun _ => ?_
  exact (Half.blind_ofAction (.say _ _)).bind fun _ => .pure _

theorem blind_buildLoader (plan : Target.Plan) :
    Blind (HeardBeside Half tools level level') (buildLoader plan) := by
  refine Half.blind_build.bind fun _ => ?_
  refine (Blind.discard (blind_onHalf fun h => h.blind_link _ _)).bind fun _ => ?_
  refine (blind_onHalf fun h => h.blind_extractSymbols).bind fun symbols => ?_
  exact (blind_onHalf fun h => h.blind_readBinary _).bind fun _ => .pure _

theorem blind_buildApplication : Blind (HeardBeside Half tools level level') buildApplication :=
  Half.blind_build.bind fun _ => blind_onHalf fun h => h.blind_extractSymbols

theorem blind_reconcile (loader application : Half)
    (loaderSymbols applicationSymbols linked : SymbolTable) : Blind (Heard tools level level')
      (reconcile loader application loaderSymbols applicationSymbols linked) := by
  refine (Blind.lift _).bind fun _ => (Blind.lift _).bind fun _ => ?_
  refine (Blind.isStale _ _).bind fun stale => .ite ?_ ?_
  · exact (LoaderImage.blind_build _ _ _ _ _ _).bind fun _ => .pure _
  · exact (Blind.say _ _).bind fun _ => (LoaderImage.blind_readExports _ _).bind fun _ => .pure _

theorem blind_refusePartlyShared (loader application exported : SymbolTable) (skip : List Text) :
    Blind (Heard tools level level') (refusePartlyShared loader application exported skip) := by
  unfold refusePartlyShared
  cases Sharing.partlyShared? loader application exported skip with
  | none => exact .pure _
  | some found =>
    exact (Blind.say _ _).bind fun _ => (Blind.sayAll _ _).bind fun _ => .throw _

theorem blind_sayCommon (packages : List Text) :
    Blind (Heard tools level level') (sayCommon packages) :=
  .ite (.say _ _) (.pure _)

theorem blind_removeFromApplication (names : List Text) :
    Blind (HeardBeside Workshop tools level level') (removeFromApplication names) := by
  refine .get_bind ?_
  rintro ⟨s, w⟩ ⟨_, w'⟩ ⟨rfl, hw⟩
  refine Blind.bind (blind_onWorld (.lift (s.application.removePackages names)))
    (fun h => .modify ?_) (s, w) (s, w') ⟨rfl, hw⟩
  rintro ⟨s, v⟩ ⟨_, v'⟩ ⟨rfl, hv⟩
  exact ⟨rfl, hv⟩

theorem blind_halves (plan : Target.Plan) (loader : Half) :
    Blind (HeardBeside Workshop tools level level') (halves plan loader) := by
  refine (blind_onLoader loader (blind_buildLoader plan)).bind fun made => .get_bind ?_
  rintro ⟨s, w⟩ ⟨_, w'⟩ ⟨rfl, hw⟩
  refine Blind.bind (blind_onApplication blind_buildApplication) (fun symbols => .get_bind ?_)
    (s, w) (s, w') ⟨rfl, hw⟩
  rintro ⟨t, v⟩ ⟨_, v'⟩ ⟨rfl, hv⟩
  exact .ok _ ⟨rfl, hv⟩

theorem blind_settle (plan : Target.Plan) (l : Target.LoaderPlan) (x : Extraction) :
    Blind (HeardBeside Workshop tools level level') (settle plan l x) := by
  refine (blind_onWorld (blind_reconcile _ _ _ _ _)).bind fun made => ?_
  refine (blind_onWorld (.lift _)).bind fun skip => ?_
  refine (blind_onWorld (blind_refusePartlyShared _ _ _ _)).bind fun _ => ?_
  refine (blind_onWorld (.lift _)).bind fun keep => ?_
  refine (blind_onWorld (blind_sayCommon _)).bind fun _ => ?_
  refine (blind_removeFromApplication _).bind fun _ => .get_bind ?_
  rintro ⟨s, w⟩ ⟨_, w'⟩ ⟨rfl, hw⟩
  exact .ok _ ⟨rfl, hw⟩

/-- A split build up to the application's link. -/
def linked (plan : Target.Plan) (l : Target.LoaderPlan) (loader : Half) :
    BuildAction (Extraction × Settlement × Path) := do
  let x ← halves plan loader
  let j ← settle plan l x
  let binary ← onWorld (j.application.link l.secondScript [x.loader.loaderImage])
  return (x, j, binary)

/-- What is said of a split build in the end. -/
def report (made : Extraction × Settlement × Path) : Action Unit := do
  reportDifferences made.1.loader made.2.1.application
  saySuccess "Loader" made.1.loader.binary
  saySuccess "App" made.2.2

def resultOf (made : Extraction × Settlement × Path) : BuildResult where
  application := made.2.2
  applicationSymbols := made.1.applicationSymbols
  loader := some made.1.loader.binary
  loaderImage := some made.1.loader.loaderImage
  exported := made.2.1.exported
  commonPackages := made.2.1.commonPackages
  regenerated := made.2.1.regenerated

theorem split_eq_report (plan : Target.Plan) (l : Target.LoaderPlan) (loader : Half) :
    (halves plan loader >>= finish plan l) = linked plan l loader >>= fun made => do
      onWorld (report made)
      return resultOf made := by
  simp only [linked, bind_assoc, pure_bind]
  refine congrArg _ (funext fun x => ?_)
  rw [finish_eq]
  rfl

theorem blind_linked (plan : Target.Plan) (l : Target.LoaderPlan) (loader : Half) :
    Blind (HeardBeside Workshop tools level level') (linked plan l loader) := by
  refine (blind_halves plan loader).bind fun x => (blind_settle plan l x).bind fun j => ?_
  exact (blind_onWorld (j.application.blind_link _ _)).bind fun _ => .pure _

/-- The report lists both binaries in a verbose build, and does nothing else that could fail. -/
private theorem answers_report (made : Extraction × Settlement × Path) (w : World) :
    Answers Unmoved (report made) (if Console.verbose ≤ w.console.verbosity then
        made.2.1.application.linkedTable w.tools >>= fun _ =>
          made.1.loader.linkedTable w.tools >>= fun _ => .ok ()
      else .ok ()) w := by
  have hsay (role : String) (binary : Path) (w : World) :
      Answers Unmoved (saySuccess role binary) (.ok ()) w :=
    (Answers.say ..).mono fun _ => Spoken.unmoved
  have hreport := ((answers_reportDifferences made.1.loader made.2.1.application w).mono
    fun _ => World.Quiet.unmoved).bind
    (f := fun _ => do
      saySuccess "Loader" made.1.loader.binary
      saySuccess "App" made.2.2) (k := fun _ => pure ())
    fun _ w _ => (hsay _ _ w).andThen fun _ _ => hsay _ _ _
  rw [bind_pure_unit] at hreport
  exact hreport

private theorem onWorld_of_answers {a : Action α} {r : Except Failure α} {s : Workshop × World}
    (h : Answers Unmoved a r s.2) : outcome (onWorld a s) = r ∧
      (leaves (onWorld a s)).1 = s.1 ∧ Unmoved s.2 (leaves (onWorld a s)).2 := by
  obtain ⟨w, hw, ha⟩ := h
  rw [onWorld, within, ha]
  cases r <;> exact ⟨rfl, rfl, hw⟩

end Build

/-- The round with another console. -/
def Round.heardBy (r : Round) (console : Console) : Round :=
  { r with before := { r.before with console } }

/-- A split image is looked at once more in a verbose build: the application's binary is listed. -/
def Workshop.audit (workshop : Workshop) (tools : Tools) : Except Failure Unit :=
  if workshop.isSplit then workshop.application.linkedTable tools >>= fun _ => .ok () else .ok ()

/-- How a build ends, when it ends like this with little shown. -/
def heardOutcome (console : Console) (audit : Except Failure Unit)
    (quiet : Except Failure BuildResult) : Except Failure BuildResult :=
  if Console.verbose ≤ console.verbosity then quiet >>= fun result => audit >>= fun _ => .ok result
  else quiet

namespace Round
open Build
variable {r : Round} {console console' : Console} {loader : Half} {l : Target.LoaderPlan}
  {made : Extraction × Settlement × Path} {s : Workshop × World}

private theorem run_eq_report (hloader : r.workshop.loader = some loader)
    (hl : r.workshop.plan.loader = some l) :
    r.run = (linked r.workshop.plan l loader >>= fun made => do
      onWorld (report made)
      return resultOf made) (r.workshop, r.before) := by
  rw [Round.run, run_of_split hloader hl, split_eq_report]

/-- What remains of a split build once the application is linked: only the report may still fail it. -/
private theorem outcome_of_linked (hloader : r.workshop.loader = some loader)
    (hl : r.workshop.plan.loader = some l)
    (hs : linked r.workshop.plan l loader (r.workshop, r.before) = .ok made s)
    (htools : s.2.tools = r.before.tools)
    (hlevel : s.2.console.verbosity = r.before.console.verbosity) :
    outcome r.run = heardOutcome r.before.console (r.workshop.audit r.before.tools)
        (.ok (resultOf made)) ∧
      (leaves r.run).1 = s.1 ∧ Unmoved s.2 (leaves r.run).2 := by
  obtain ⟨houtcome, hsame, hunmoved⟩ := onWorld_of_answers (answers_report made s.2)
  have hrun : r.run = (onWorld (report made) >>= fun _ => pure (resultOf made)) s :=
    (run_eq_report hloader hl).trans (Action.bind_of_ok hs)
  have hleaves : leaves r.run = leaves (onWorld (report made) s) := by
    rw [hrun, Action.bind_apply]
    cases onWorld (report made) s <;> rfl
  have hended : outcome r.run = outcome (onWorld (report made) s) >>= fun _ =>
      .ok (resultOf made) := by
    rw [hrun, Action.bind_apply]
    cases onWorld (report made) s <;> rfl
  refine ⟨?_, hleaves ▸ hsame, hleaves ▸ hunmoved⟩
  obtain ⟨x, s₁, hhalves, hs⟩ := Action.bind_eq_ok_iff.1 hs
  obtain ⟨j, s₂, hsettle, hs⟩ := Action.bind_eq_ok_iff.1 hs
  obtain ⟨binary, s₃, hlink, hs⟩ := Action.bind_eq_ok_iff.1 hs
  cases hs
  have htable : x.loader.linkedTable r.before.tools = .ok x.linked := (halves_of hhalves).2
  -- the half of the application has lost packages at most, so its binary is the one that was linked
  have happlication : j.application.linkedTable r.before.tools =
      r.workshop.application.linkedTable r.before.tools := by
    have hremains := r.remains.application
    rw [hleaves, hsame, (onWorld_eq_ok hlink).1, (settle_steps hsettle).1] at hremains
    obtain ⟨archives, packages, -, heq⟩ := hremains
    have heq : j.application = _ := heq
    rw [heq]
    rfl
  have hsplit : r.workshop.isSplit = true := by
    rw [Workshop.isSplit, hloader, hl]
    rfl
  rw [hended, houtcome, htools, hlevel, heardOutcome, Workshop.audit, if_pos hsplit, happlication,
    htable]
  split
  · cases r.workshop.application.linkedTable r.before.tools <;> rfl
  · rfl

private theorem run_of_error (hloader : r.workshop.loader = some loader)
    (hl : r.workshop.plan.loader = some l) {f : Failure}
    (hs : linked r.workshop.plan l loader (r.workshop, r.before) = .error f s) :
    r.run = .error f s :=
  (run_eq_report hloader hl).trans (Action.bind_of_error hs)

/-- Two consoles let the same build end differently at most by what is looked at for the second. -/
private structure Together (r : Round) (console console' : Console) : Prop where
  workshop : (leaves (r.heardBy console').run).1 = (leaves (r.heardBy console).run).1
  world : Unmoved (leaves (r.heardBy console).run).2 (leaves (r.heardBy console').run).2
  outcome : ∃ plain, outcome (r.heardBy console).run =
      heardOutcome console (r.workshop.audit r.before.tools) plain ∧
    outcome (r.heardBy console').run =
      heardOutcome console' (r.workshop.audit r.before.tools) plain

private theorem heard_start (r : Round) (console console' : Console) :
    HeardBeside Workshop r.before.tools console.verbosity console'.verbosity
      (r.workshop, (r.heardBy console).before) (r.workshop, (r.heardBy console').before) :=
  ⟨rfl, ⟨console', rfl⟩, rfl, rfl, rfl⟩

private theorem together_of_single (h : r.workshop.loader = none ∨ r.workshop.plan.loader = none) :
    Together r console console' := by
  have hsplit : r.workshop.isSplit = false := by
    rcases h with h | h
    · rw [Workshop.isSplit, h]
      rfl
    · rw [Workshop.isSplit, h, Option.isSome_none, Bool.and_false]
  have hrun (console : Console) : (r.heardBy console).run =
      onApplication (single r.workshop.plan) (r.workshop, (r.heardBy console).before) :=
    run_of_single h _
  obtain ⟨houtcome, hsame, hheard⟩ := blind_onApplication (blind_single r.workshop.plan) _ _
    (heard_start r console console')
  rw [← hrun, ← hrun] at houtcome hsame hheard
  have hplain (console : Console) (plain : Except Failure BuildResult) :
      heardOutcome console (r.workshop.audit r.before.tools) plain = plain := by
    rw [heardOutcome, Workshop.audit, hsplit]
    split
    · cases plain <;> rfl
    · rfl
  exact ⟨hsame.symm, hheard.spoken.unmoved, _, (hplain console _).symm,
    houtcome.trans (hplain console' _).symm⟩

private theorem together_of_split (hloader : r.workshop.loader = some loader)
    (hl : r.workshop.plan.loader = some l) : Together r console console' := by
  obtain ⟨made, s, s', ⟨hsame, hheard⟩, hs, hs'⟩ | ⟨f, s, s', ⟨hsame, hheard⟩, hs, hs'⟩ :=
    (blind_linked r.workshop.plan l loader _ _ (heard_start r console console')).eq_or
  · obtain ⟨houtcome, hworkshop, hworld⟩ := outcome_of_linked (r := r.heardBy console) hloader hl hs
      hheard.tools hheard.here
    obtain ⟨houtcome', hworkshop', hworld'⟩ := outcome_of_linked (r := r.heardBy console') hloader hl
      hs' hheard.tools' hheard.there
    refine ⟨hworkshop'.trans (hsame.symm.trans hworkshop.symm), ?_, _, houtcome, houtcome'⟩
    exact trans_of Unmoved (Unmoved.symm hworld) (trans_of Unmoved hheard.spoken.unmoved hworld')
  · have hrun := run_of_error (r := r.heardBy console) hloader hl hs
    have hrun' := run_of_error (r := r.heardBy console') hloader hl hs'
    have hfails (console : Console) :
        heardOutcome console (r.workshop.audit r.before.tools) (.error f) = .error f :=
      ite_self _
    refine ⟨?_, ?_, .error f, ?_, ?_⟩
    · rw [hrun, hrun']
      exact hsame.symm
    · rw [hrun, hrun']
      exact hheard.spoken.unmoved
    · rw [hrun, hfails]
      rfl
    · rw [hrun', hfails]
      rfl

theorem outcome_heardBy (r : Round) (console : Console) :
    outcome (r.heardBy console).run = heardOutcome console (r.workshop.audit r.before.tools)
        (outcome (r.heardBy (.ofVerbosity Console.quiet)).run) ∧
      (leaves (r.heardBy console).run).1 = (leaves r.run).1 ∧
      Unmoved (leaves r.run).2 (leaves (r.heardBy console).run).2 := by
  have htogether (console console' : Console) : Together r console console' := by
    cases hloader : r.workshop.loader with
    | none => exact together_of_single (.inl hloader)
    | some loader =>
      cases hl : r.workshop.plan.loader with
      | none => exact together_of_single (.inr hl)
      | some l => exact together_of_split hloader hl
  obtain ⟨plain, hquiet, hheard⟩ := (htogether (.ofVerbosity Console.quiet) console).outcome
  have hplain : outcome (r.heardBy (.ofVerbosity Console.quiet)).run = plain :=
    hquiet.trans (if_neg (by decide))
  have hleaves := htogether r.before.console console
  exact ⟨hplain ▸ hheard, hleaves.workshop, hleaves.world⟩

end Round

/-- What a verbose build of a target looks at once more, if it is split. -/
def Target.audit (t : Target) (tools : Tools) : Except Failure Unit :=
  Workshop.ofTarget t >>= fun workshop => workshop.audit tools

namespace Build
variable {t : Target} {w : World}

private theorem ofTarget_of_ok {workshop : Workshop} (h : Workshop.ofTarget t = .ok workshop) :
    outcome (ofTarget t w) = outcome (Round.run ⟨workshop, w⟩) ∧
      leaves (ofTarget t w) = Round.after ⟨workshop, w⟩ := by
  cases hrun : Round.run ⟨workshop, w⟩ with
  | ok result s =>
    have hmade : ofTarget t w = .ok result s.2 := by
      rw [ofTarget, h]
      refine (Action.bind_of_ok (x := workshop) (t := w) rfl).trans ?_
      rw [show run (workshop, w) = .ok result s from hrun]
    rw [hmade, Round.after, hrun]
    exact ⟨rfl, rfl⟩
  | error f s =>
    have hmade : ofTarget t w = .error f s.2 := by
      rw [ofTarget, h]
      refine (Action.bind_of_ok (x := workshop) (t := w) rfl).trans ?_
      rw [show run (workshop, w) = .error f s from hrun]
    rw [hmade, Round.after, hrun]
    exact ⟨rfl, rfl⟩

private theorem ofTarget_of_error {f : Failure} (h : Workshop.ofTarget t = .error f) :
    ofTarget t w = .error f w := by
  rw [ofTarget, h]
  rfl

/-- However much is shown, the files, the tools and the halves end up the same, in a build of a
target and in one with halves from an earlier build. The outcome is the one of a quiet build, unless
that succeeds and, in a verbose build of a split image, the application's binary cannot be listed. -/
theorem outcome_at_verbosity :
    (∀ (t : Target) (w : World) (console : Console),
      outcome (ofTarget t { w with console }) = heardOutcome console (t.audit w.tools)
          (outcome (ofTarget t { w with console := .ofVerbosity Console.quiet })) ∧
        Unmoved (leaves (ofTarget t w)) (leaves (ofTarget t { w with console }))) ∧
      ∀ (r : Round) (console : Console),
        outcome (r.heardBy console).run = heardOutcome console (r.workshop.audit r.before.tools)
            (outcome (r.heardBy (.ofVerbosity Console.quiet)).run) ∧
          (leaves (r.heardBy console).run).1 = (leaves r.run).1 ∧
          Unmoved (leaves r.run).2 (leaves (r.heardBy console).run).2 := by
  refine ⟨fun t w console => ?_, Round.outcome_heardBy⟩
  cases h : Workshop.ofTarget t with
  | error f =>
    rw [ofTarget_of_error h, ofTarget_of_error h, ofTarget_of_error h]
    exact ⟨(ite_self _).symm, console, w.commands, rfl⟩
  | ok workshop =>
    obtain ⟨houtcome, -, hworld⟩ := Round.outcome_heardBy ⟨workshop, w⟩ console
    rw [(ofTarget_of_ok h).1, (ofTarget_of_ok h).1, (ofTarget_of_ok h).2, (ofTarget_of_ok h).2,
      Target.audit, h]
    exact ⟨houtcome, hworld⟩

/-- The tools list everything but the application's binary. -/
def unlistable (console : Console) : World :=
  { History.exampleStart with
    tools := ⟨[⟨"objdump -t o/app/app.elf", false, 1, none, some "bad"⟩], []⟩
    console }

def finalListing : Command := ["objdump", "-t", "o/app/app.elf"]

/-- A build that succeeds with little shown fails when it is verbose. -/
theorem verbose_build_fails :
    (∃ result, outcome (ofTarget (History.exampleTarget []) (unlistable (.ofVerbosity 0))) =
        .ok result) ∧
      ∃ status output,
        outcome (ofTarget (History.exampleTarget []) (unlistable (.ofVerbosity 2))) =
          .error (.command finalListing status output) := by
  have hanswer : (answer? (ofTarget (History.exampleTarget [])
      (unlistable (.ofVerbosity 0)))).isSome = true := by
    decide +kernel
  have hfailed : failed? (ofTarget (History.exampleTarget []) (unlistable (.ofVerbosity 2))) =
      some finalListing := by
    decide +kernel
  obtain ⟨result, hresult⟩ := Option.isSome_iff_exists.1 hanswer
  obtain ⟨status, output, herror⟩ := exists_error_of_failed? hfailed
  refine ⟨⟨result, ?_⟩, status, output, ?_⟩
  · rw [eq_ok_of_answer? hresult]
    rfl
  · rw [herror]
    rfl

end Build
end DualImage
