import DualImage.Proofs.Build.Upkeep

/-! The stages of a build once more, where they find nothing to do: they succeed as before, and symbols
are listed at most. -/
namespace DualImage
open Half (applicationPath)
open World (Quiet Withholds)
variable {dir : Path} {P P' : Command → Prop} {α β σ : Type} {w w' : World}

/-- What comes after a step that leaves the world as it is. -/
private theorem Answers.after {R : World → World → Prop} {a : Action α} {f : α → Action β} {x : α}
    {r : Except Failure β} (ha : a w = .ok x w) (hf : Answers R (f x) r w) :
    Answers R (a >>= f) r w := by
  obtain ⟨w', hw, h⟩ := hf
  exact ⟨w', hw, (Action.bind_of_ok ha).trans h⟩

/-- The action succeeds from one part of the state to another, and what it does to the world is related
to what it finds. -/
def Replays (R : World → World → Prop) (a : EStateM Failure (σ × World) α) (t : σ) (x : α) (t' : σ)
    (w : World) : Prop :=
  ∃ w', R w w' ∧ a (t, w) = .ok x (t', w')

namespace Replays
variable {R : World → World → Prop} {t t' t'' : σ} {x : α} {y : β}

theorem andThen [IsPreorder World R] {a : EStateM Failure (σ × World) α}
    {f : α → EStateM Failure (σ × World) β} (ha : Replays R a t x t' w)
    (hf : ∀ w', R w w' → Replays R (f x) t' y t'' w') : Replays R (a >>= f) t y t'' w := by
  obtain ⟨w', hw, hr⟩ := ha
  obtain ⟨w'', hw', hr'⟩ := hf w' hw
  exact ⟨w'', trans_of R hw hw', (Action.bind_of_ok hr).trans hr'⟩

theorem pure [IsPreorder World R] (x : α) : Replays R (pure x) t x t w := ⟨w, refl_of R w, rfl⟩

theorem get_bind {f : σ × World → EStateM Failure (σ × World) α}
    (hf : Replays R (f (t, w)) t x t' w) : Replays R (MonadState.get >>= f) t x t' w :=
  hf

theorem discard {a : EStateM Failure (σ × World) α} (ha : Replays R a t x t' w) :
    Replays R (discard a) t PUnit.unit t' w := by
  obtain ⟨w', hw, hr⟩ := ha
  exact ⟨w', hw, Action.discard_eq_ok_iff.2 ⟨x, hr⟩⟩

theorem ofAction {h : Half} {a : Action α} (ha : Answers R a (.ok x) w) :
    Replays R (HalfAction.ofAction a) h x h w := by
  obtain ⟨w', hw, hr⟩ := ha
  exact ⟨w', hw, Half.ofAction_eq_ok_iff.2 ⟨rfl, hr⟩⟩

theorem onHalf {h : Half} {a : Half → Action α} (ha : Answers R (a h) (.ok x) w) :
    Replays R (Build.onHalf a) h x h w :=
  get_bind (ofAction ha)

theorem onWorld {workshop : Workshop} {a : Action α} (ha : Answers R a (.ok x) w) :
    Replays R (Build.onWorld a) workshop x workshop w := by
  obtain ⟨w', hw, hr⟩ := ha
  exact ⟨w', hw, within_eq_ok_iff.2 ⟨w', hr, rfl⟩⟩

theorem onApplication (workshop : Workshop) {h : Half} {a : HalfAction α}
    (ha : Replays R a workshop.application x h w) :
    Replays R (Build.onApplication a) workshop x { workshop with application := h } w := by
  obtain ⟨w', hw, hr⟩ := ha
  exact ⟨w', hw, within_eq_ok_iff.2 ⟨(h, w'), hr, rfl⟩⟩

theorem onLoader (workshop : Workshop) {loader h : Half} {a : HalfAction α}
    (ha : Replays R a loader x h w) :
    Replays R (Build.onLoader loader a) workshop x { workshop with loader := some h } w := by
  obtain ⟨w', hw, hr⟩ := ha
  exact ⟨w', hw, within_eq_ok_iff.2 ⟨(h, w'), hr, rfl⟩⟩

end Replays

namespace Build
open Command (Lists)
variable {plan : Target.Plan} {l : Target.LoaderPlan} {loader : Half} {x : Extraction} {j : Settlement}
  {v : World}

/-- A half that needs no more work is built again, as it was before. -/
private theorem replays_build {s s' : Half × World} (hr : Half.build s = .ok () s')
    (hs : s.1.Rests v.disk) :
    Replays (Quiet P) Half.build s.1 () s'.1 v := by
  obtain ⟨v', hbuilt, hv⟩ := hs.build hr
  exact ⟨v', hv.quiet, hbuilt⟩

private theorem replays_link {h : Half} {script : Path} {symbolFiles : List Path}
    (hlinked : h.Linked script symbolFiles v.disk) :
    Answers (Quiet P) (h.link script symbolFiles) (.ok h.binary) v :=
  hlinked.answers_link.mono fun _ => Spoken.quiet

private theorem quiet_say (level : Int) (message : Text) :
    Answers (Quiet P) (World.say level message) (.ok ()) v :=
  (Answers.say level message).mono fun _ => Spoken.quiet

/-- A single image is built again without a command. -/
theorem replays_single {s s' : Half × World} {result : BuildResult}
    (hr : single plan s = .ok result s')
    (hs : s.1.Rests v.disk)
    (hlinked : s'.1.Linked plan.linkerScript [] v.disk) :
    Replays (Quiet fun _ => False) (single plan) s.1 result s'.1 v := by
  obtain ⟨_, s₁, hbuild, hr⟩ := Action.bind_eq_ok_iff.1 hr
  obtain ⟨binary, s₂, hlink, hr⟩ := Action.bind_eq_ok_iff.1 hr
  obtain ⟨hsame₂, hlink⟩ := onHalf_eq_ok hlink
  obtain ⟨_, s₃, hsay, hr⟩ := Action.bind_eq_ok_iff.1 hr
  obtain ⟨hsame₃, -⟩ := Half.ofAction_eq_ok_iff.1 hsay
  cases hr
  obtain ⟨archives, w, -, hlink⟩ := Action.bind_eq_ok_iff.1 hlink
  have hsame : s'.1 = s₁.1 := hsame₃.trans hsame₂
  rw [hsame] at hlinked ⊢
  refine (replays_build hbuild hs).andThen fun v₁ h₁ => ?_
  rw [← h₁.unmoved.disk] at hlinked
  refine (Replays.onHalf (a := (·.link plan.linkerScript [])) (replays_link hlinked)).andThen
    fun v₂ _ => ?_
  rw [(Compiler.link_steps hlink).1]
  exact (Replays.ofAction (quiet_say ..)).andThen fun _ _ => .pure _

/-- The loader is built and linked again, and it is listed as it was. -/
private theorem replays_buildLoader {s s' : Half × World} {symbols linked : SymbolTable}
    (hr : buildLoader plan s = .ok (symbols, linked) s')
    (hs : s.1.Rests v.disk) (hlinked : s'.1.Linked plan.linkerScript [] v.disk)
    (hsymbols : s'.1.extracted v.tools = .ok symbols) (htable : s'.1.linkedTable v.tools = .ok linked) :
    Replays (Quiet Lists) (buildLoader plan) s.1 (symbols, linked) s'.1 v := by
  obtain ⟨_, _, _, hbuild, -⟩ := buildLoader_steps hr
  refine (replays_build hbuild hs).andThen fun v₁ h₁ => ?_
  rw [← h₁.unmoved.disk] at hlinked
  refine (Replays.onHalf (a := (·.link plan.linkerScript [])) (replays_link hlinked)).discard.andThen
    fun v₂ h₂ => ?_
  have h₂ := (trans_of (Quiet Lists) h₁ h₂).unmoved
  have hextract := s'.1.answers_extractSymbols v₂
  rw [h₂.tools, hsymbols] at hextract
  refine (Replays.onHalf hextract).andThen fun v₃ h₃ => ?_
  have h₃ := trans_of Unmoved h₂ h₃.unmoved
  have hread := s'.1.answers_readBinary v₃
  rw [h₃.tools, htable] at hread
  exact (Replays.onHalf (a := fun h => h.readBinary h.binary) hread).andThen fun _ _ => .pure _

private theorem replays_buildApplication {s s' : Half × World} {symbols : SymbolTable}
    (hr : buildApplication s = .ok symbols s') (hs : s.1.Rests v.disk)
    (hsymbols : s'.1.extracted v.tools = .ok symbols) :
    Replays (Quiet Lists) buildApplication s.1 symbols s'.1 v := by
  obtain ⟨_, hbuild, -⟩ := buildApplication_steps hr
  refine (replays_build hbuild hs).andThen fun v₁ h₁ => ?_
  have hextract := s'.1.answers_extractSymbols v₁
  rw [h₁.unmoved.tools, hsymbols] at hextract
  exact Replays.onHalf hextract

section
variable {s s' : Workshop × World} (hu : Upkept plan l loader s.1.application x j v.disk)
include hu

/-- Both halves are built again, and what is extracted of them is what it was. -/
theorem replays_halves (hr : halves plan loader s = .ok x s') (htools : v.tools = s.2.tools) :
    Replays (Quiet Lists) (halves plan loader) s.1 x s'.1 v := by
  obtain ⟨hsame, w, hbuilt, happlied⟩ := halves_steps hr
  obtain ⟨hof, htable⟩ := halves_of hr
  rw [← htools] at hof htable
  rw [hsame]
  refine (Replays.onLoader s.1
    (replays_buildLoader hbuilt hu.loader hu.linked hof.loader htable)).andThen
      fun v₁ h₁ => .get_bind ?_
  have h₁ := h₁.unmoved
  have happlication := replays_buildApplication (v := v₁) happlied (h₁.disk ▸ hu.application)
    (h₁.tools ▸ hof.application)
  refine Replays.andThen (Replays.onApplication _ happlication) fun v₂ _ => ?_
  exact Replays.get_bind (.pure x)

end

/-- What the loader image is found to export. -/
def Extraction.imported (x : Extraction) (tools : Tools) : Except Failure SymbolTable :=
  tools.dump x.loader.compiler x.loader.loaderImage >>= fun text =>
    Listing.Origin.ofBinary.tableOf text >>= fun listed => .ok (LoaderImage.importsOf listed)

private theorem archivePaths_of_settle {s s' : Workshop × World} (hr : settle plan l x s = .ok j s') :
    x.loader.archivePaths = .ok (x.loader.shelf.map (·.2)) ∧
      x.application.archivePaths = .ok (x.application.shelf.map (·.2)) := by
  obtain ⟨-, -, -, _, hreconcile, -⟩ := settle_steps hr
  obtain ⟨ofLoader, _, hloader, hr⟩ := Action.bind_eq_ok_iff.1 hreconcile
  obtain ⟨ofApplication, _, happlication, -⟩ := Action.bind_eq_ok_iff.1 hr
  obtain ⟨hloader, -⟩ := World.lift_eq_ok_iff.1 hloader
  obtain ⟨happlication, -⟩ := World.lift_eq_ok_iff.1 happlication
  rw [← Half.archivePaths_eq_ok hloader, ← Half.archivePaths_eq_ok happlication]
  exact ⟨hloader, happlication⟩

/-- A loader image that is as new as its inputs says what it exports. -/
private theorem answers_reconcile {exported : SymbolTable}
    (hpaths : x.loader.archivePaths = .ok (x.loader.shelf.map (·.2)) ∧
      x.application.archivePaths = .ok (x.application.shelf.map (·.2)))
    (hfresh : v.disk.Fresh x.loader.loaderImage x.inputs)
    (himported : x.imported v.tools = .ok exported) :
    Answers (Quiet Lists)
      (reconcile x.loader x.application x.loaderSymbols x.applicationSymbols x.linked)
      (.ok (exported, false)) v := by
  have hstale : World.isStale x.loader.loaderImage (x.loader.binary ::
      (x.loader.shelf.map (·.2) ++ x.application.shelf.map (·.2))) v = .ok false v := by
    rw [← List.map_append]
    exact World.isStale_eq_false_iff.2 ⟨rfl, hfresh⟩
  unfold reconcile
  rw [hpaths.1, hpaths.2]
  refine .after rfl (.after rfl (.after hstale ?_))
  refine (quiet_say ..).andThen fun w h => ?_
  have hread := LoaderImage.answers_readExports x.loader.compiler x.loader.loaderImage w
  rw [h.unmoved.tools] at hread
  unfold Extraction.imported at himported
  rw [himported] at hread
  exact hread.andThen fun _ _ => .pure _

private theorem answers_lift {γ : Type} {r : Except Failure γ} {y : γ} (h : r = .ok y) (w : World) :
    Answers (Quiet P) (World.lift r) (.ok y) w :=
  ⟨w, refl_of _ w, World.lift_eq_ok_iff.2 ⟨h, rfl⟩⟩

private theorem replays_removeFromApplication {workshop : Workshop} {names : List Text} {h : Half}
    (hremoved : workshop.application.removePackages names = .ok h) (w : World) :
    Replays (Quiet P) (removeFromApplication names) workshop ()
      { workshop with application := h } w := by
  refine .get_bind (Replays.andThen (Replays.onWorld (answers_lift hremoved w)) fun w' _ => ?_)
  exact ⟨w', refl_of _ w', rfl⟩

section
variable {s s' : Workshop × World} (hr : settle plan l x s = .ok j s')
include hr

/-- The packages are settled again, with what the loader image is found to export. -/
theorem replays_settle {exported : SymbolTable} {skip keep : List Text}
    (hfresh : v.disk.Fresh x.loader.loaderImage x.inputs)
    (himported : x.imported v.tools = .ok exported)
    (hskip : packageNames [plan.application.name, l.part.name] = .ok skip)
    (hwhole : Sharing.partlyShared? x.loaderSymbols x.applicationSymbols exported skip = none)
    (hkeep : packageNames [plan.board.name, plan.application.name] = .ok keep)
    (hcommon : Sharing.commonPackages x.applicationSymbols exported keep = j.commonPackages) :
    Replays (Quiet Lists) (settle plan l x) s.1 { j with exported, regenerated := false } s'.1 v := by
  obtain ⟨hsame, hremoved, -, -⟩ := settle_steps hr
  have hrefused (w : World) : Answers (Quiet Lists)
      (refusePartlyShared x.loaderSymbols x.applicationSymbols exported skip) (.ok ()) w := by
    unfold refusePartlyShared
    rw [hwhole]
    exact .pure ()
  have hsaid (w : World) : Answers (Quiet Lists) (sayCommon j.commonPackages) (.ok ()) w := by
    unfold sayCommon
    split
    · exact quiet_say ..
    · exact .pure ()
  refine (Replays.onWorld (answers_reconcile (archivePaths_of_settle hr) hfresh himported)).andThen
    fun w₁ _ => ?_
  refine (Replays.onWorld (answers_lift hskip w₁)).andThen fun w₂ _ => ?_
  refine (Replays.onWorld (hrefused w₂)).andThen fun w₃ _ => ?_
  refine (Replays.onWorld (answers_lift hkeep w₃)).andThen fun w₄ _ => ?_
  dsimp only
  rw [hcommon]
  refine (Replays.onWorld (hsaid w₄)).andThen fun w₅ _ => ?_
  rw [hsame]
  refine Replays.andThen (replays_removeFromApplication hremoved w₅) fun w₆ _ => ?_
  exact .get_bind (.pure _)

end

/-- The application is linked again, and the report says what it said. -/
theorem replays_conclude {s s' : Workshop × World} {result : BuildResult}
    (hr : conclude l x j s = .ok result s') (exported : SymbolTable) (regenerated : Bool)
    (hlinked : j.application.Linked l.secondScript [x.loader.loaderImage] v.disk)
    (htables : ∀ h ∈ [x.loader, j.application], ∃ table, h.linkedTable v.tools = .ok table) :
    Replays (Quiet Lists) (conclude l x { j with exported, regenerated }) s.1
      { result with exported, regenerated } s'.1 v := by
  obtain ⟨hsame, -⟩ := conclude_steps hr
  obtain ⟨binary, s₁, hlink, hr⟩ := Action.bind_eq_ok_iff.1 hr
  obtain ⟨-, hlink⟩ := onWorld_eq_ok hlink
  obtain ⟨archives, w, -, hlink⟩ := Action.bind_eq_ok_iff.1 hlink
  obtain ⟨_, s₂, -, hr⟩ := Action.bind_eq_ok_iff.1 hr
  cases hr
  rw [hsame, (Compiler.link_steps hlink).1]
  refine Replays.andThen (Replays.onWorld (replays_link hlinked)) fun v₁ h₁ => ?_
  have hreport := answers_reportDifferences x.loader j.application v₁
  rw [List.forall_mem_cons, List.forall_mem_singleton] at htables
  obtain ⟨⟨ofLoader, hloader⟩, ofApplication, happlication⟩ := htables
  rw [h₁.unmoved.tools, hloader, happlication, show (if Console.verbose ≤ v₁.console.verbosity then
    (Except.ok ofApplication >>= fun _ => Except.ok ofLoader >>= fun _ => .ok () : Except Failure Unit)
    else .ok ()) = .ok () from ite_self _] at hreport
  have hsaid : Answers (Quiet Lists) (do
      reportDifferences x.loader j.application
      saySuccess "Loader" x.loader.binary
      saySuccess "App" j.application.binary) (.ok ()) v₁ :=
    hreport.andThen fun _ _ => (quiet_say ..).andThen fun _ _ => quiet_say ..
  exact Replays.andThen (Replays.onWorld hsaid) fun _ _ => .pure _

/-- With tools that succeed, a half that is linked has a table. -/
theorem exists_linkedTable {h : Half} {script : Path} {symbolFiles : List Path} {d : Disk}
    {tools : Tools} (hlinked : h.Linked script symbolFiles d) (hrules : tools.rules = []) :
    ∃ table, h.linkedTable tools = .ok table := by
  obtain ⟨_, command, ⟨-, -, hcommand⟩, -⟩ := hlinked
  obtain ⟨gcc, hgcc, -⟩ := Except.bind_eq_ok_iff.1 hcommand
  obtain ⟨before, hbefore, -⟩ := Compiler.tool_eq_ok_iff.1 hgcc
  have htool : h.compiler.tool "objdump" = .ok (before ++ ("objdump" : String)) :=
    Compiler.tool_eq_ok_iff.2 ⟨before, hbefore, rfl⟩
  have hdump : tools.dump h.compiler h.binary = .ok (some (Command.shows
      [before ++ ("objdump" : String), "-t", h.binary.toText] tools.listings)) := by
    rw [Tools.dump, htool]
    change tools.reply _ = _
    rw [Tools.reply, Tools.rule?, hrules]
    rfl
  exact ⟨_, Listing.Origin.bind_tableOf_eq_ok_iff.2 ⟨_, hdump, rfl⟩⟩

section
variable {C : Command → Prop} {A B : Path → Prop} {R : World → World → Prop} [IsPreorder World R]
  (hc : Conduct C A B R) {s : Workshop × World}
include hc

/-- A loader image that is as new as its inputs is only read. -/
private theorem obeys_reconcile_of_fresh (hh : x.loader.AsksDump C)
    (hfresh : w.disk.Fresh x.loader.loaderImage x.inputs) : Obeys R (fun _ => True)
      (reconcile x.loader x.application x.loaderSymbols x.applicationSymbols x.linked) w := by
  refine .lift_bind (fun _ _ => trivial) fun ofLoader hloader => ?_
  refine .lift_bind (fun _ _ => trivial) fun ofApplication happlication => ?_
  refine ((hc.isStale _ _).mono fun _ _ => trivial).bind_of_ok fun stale t hr => ?_
  have hstale : World.isStale x.loader.loaderImage (x.loader.binary :: (ofLoader ++ ofApplication)) w =
      .ok false w := by
    rw [Half.archivePaths_eq_ok hloader, Half.archivePaths_eq_ok happlication, ← List.map_append]
    exact World.isStale_eq_false_iff.2 ⟨rfl, hfresh⟩
  cases hr.symm.trans hstale
  refine (hc.say _ _).bind fun _ _ _ => ?_
  exact ((obeys_readExports hc hh _).mono fun _ _ => trivial).bind fun _ _ _ => .pure _

end

variable {s : Workshop × World} in
/-- When the loader image is as new as its inputs, the rest of a build lists symbols and links the
application. -/
theorem obeys_finish_of_fresh (plan : Target.Plan) (l : Target.LoaderPlan) (hs : s.1.LiesIn dir)
    (hfresh : s.2.disk.Fresh x.loader.loaderImage x.inputs) :
    Obeys (Along dir (Withholds (fun c => c.Lists ∨ c.LinksApplication dir) [])) (fun _ => True)
      (finish plan l x) s := by
  have hc := World.conduct_withholds (fun c => c.Lists ∨ c.LinksApplication dir) []
  have hdump (h : Half) : h.AsksDump fun c => (c.Lists ∨ c.LinksApplication dir) ∧ c.ClearOf [] :=
    fun _ htool _ => ⟨.inl (Compiler.endsWith_of_tool htool), fun _ _ hp => absurd hp List.not_mem_nil⟩
  have hsettle : Obeys (Along dir (Withholds (fun c => c.Lists ∨ c.LinksApplication dir) []))
      (fun _ => True) (settle plan l x) s :=
    (obeys_onWorld (obeys_reconcile_of_fresh hc (hdump _) hfresh)).bind fun made _ _ =>
      (obeys_chosen hc dir plan l x made.1 made.2).mono fun _ _ => trivial
  rw [finish_eq]
  refine hsettle.bind_of_ok fun j t hr => ?_
  have hj : j.application.LiesIn "app" dir := by
    have ht := (hsettle.ok hr hs).1.application
    rwa [(settle_steps hr).1] at ht
  refine (obeys_conclude hc dir (hdump _) (hdump _) ?_ l).mono fun _ _ => trivial
  refine ⟨fun _ _ _ _ hp => absurd hp List.not_mem_nil, fun _ _ _ command hcommand => ?_⟩
  refine ⟨.inr ?_, fun _ _ hp => absurd hp List.not_mem_nil⟩
  obtain ⟨tool, _, htool, -, rfl⟩ := Compiler.linkCommand_eq_ok hcommand
  rw [hj.binary_eq "app.elf" rfl]
  exact ⟨Compiler.endsWith_of_tool htool, _, rfl⟩

end Build
end DualImage
