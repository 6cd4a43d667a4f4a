import DualImage.Proofs.Build.Replay

/-! Building once more with nothing changed. The halves, the loader and the loader image are as they
should be, so nothing of them is made again. An application that takes the same packages from the
loader is not linked again either. -/
namespace DualImage
open Command (Builds Planned Lists)
open World (Quiet Withholds)

namespace Workshop

/-- The scripts that the binaries are linked with. -/
def scripts (workshop : Workshop) : List Path :=
  workshop.plan.linkerScript :: workshop.plan.loader.toList.map (·.secondScript)

/-- The files that a build reads and does not make. -/
def inputs (workshop : Workshop) : List Path :=
  workshop.halves.flatMap (·.packages.flatMap (·.sources)) ++ workshop.scripts

/-- Texts that go into the commands for linking. -/
def linkTexts (workshop : Workshop) : List Text :=
  workshop.halves.flatMap (·.linkTexts) ++ workshop.scripts.map (·.toText)

/-- The files that a build makes, besides those that it keeps for itself. -/
def products (workshop : Workshop) : List Path :=
  workshop.halves.flatMap (·.outputs) ++ workshop.binaries

private theorem mem_halves {workshop : Workshop} {h : Half} (hh : h ∈ workshop.halves) :
    h = workshop.application ∨ workshop.loader = some h := by
  unfold Workshop.halves at hh
  split at hh
  · rcases List.mem_append.1 hh with hloader | happlication
    · exact .inr (Option.mem_toList.1 hloader)
    · exact .inl (List.mem_singleton.1 happlication)
  · exact .inl (List.mem_singleton.1 hh)

end Workshop

namespace Round
variable {r : Round} {t : Target}

/-- What the loader image of an earlier build says that it exports, and the packages that the
application takes from the loader then. There is no answer when one of them is shared only in part. -/
def readBack? (r : Round) : Option (SymbolTable × List Text) := do
  let (x, w) ← r.compared?
  let l ← r.workshop.plan.loader
  let exported ← answer? (LoaderImage.readExports x.loader.compiler x.loader.loaderImage w)
  let skip ← (Build.packageNames [r.workshop.plan.application.name, l.part.name]).toOption
  let keep ← (Build.packageNames
    [r.workshop.plan.board.name, r.workshop.plan.application.name]).toOption
  if Sharing.partlyShared? x.loaderSymbols x.applicationSymbols exported skip = none then
    some (exported, Sharing.commonPackages x.applicationSymbols exported keep)
  else none

/-- The target is built from the start, with its sources and scripts outside the directory of the build.
All tools succeed, and no file has a time to come. -/
structure Prepares (t : Target) (r : Round) : Prop where
  made : Workshop.ofTarget t = .ok r.workshop
  orderly : t.Orderly t.buildDir
  plain : t.buildDir.Plain
  rules : r.before.tools.rules = []
  grounded : r.before.disk.Grounded
  punctual : r.before.disk.Punctual
  inputs : ∀ p ∈ r.workshop.inputs, r.before.disk.Gives t.buildDir p
  texts : ∀ text ∈ r.workshop.linkTexts, text.IsUnreturned

namespace Prepares
variable (h : Prepares t r)
include h

private theorem underway : Underway Builds r.before r.before := by
  refine ⟨fun rule hrule => ?_, h.punctual, .of_disk rfl rfl (.refl h.grounded)⟩
  rw [h.rules] at hrule
  cases hrule

private theorem liesIn : r.workshop.LiesIn t.buildDir := (Target.Served.made h.made).liesIn

/-- Both halves are ready to be built. -/
private theorem ready {half : Half} (hhalf : half ∈ r.workshop.halves)
    (hnames : ¬ (Half.Yields half.packages "" ∧ Half.Yields half.packages ".")) :
    half.Ready r.before.disk := by
  have hregular := h.orderly.regular h.plain h.made
  obtain ⟨hr, hunbuilt, hdir⟩ :
      half.Regular ∧ half.archives = [] ∧ half.buildDir = t.buildDir := by
    obtain ⟨plan, -, hmade⟩ := Target.ofTarget_eq_ok h.made
    rcases Workshop.mem_halves hhalf with rfl | hloader
    · exact ⟨hregular.application, by rw [hmade]; rfl, h.liesIn.application.2⟩
    · refine ⟨(hregular.loader half hloader).1, ?_, (h.liesIn.loader half hloader).2⟩
      rw [hmade] at hloader
      obtain ⟨l, -, rfl⟩ := Option.map_eq_some_iff.1 hloader
      rfl
  refine ⟨hr, hunbuilt, hnames, fun p hp source hsource => ?_, fun text htext => ?_⟩
  · rw [hdir]
    refine h.inputs source (List.mem_append_left _ (List.mem_flatMap.2 ⟨half, hhalf, ?_⟩))
    exact List.mem_flatMap.2 ⟨p, hp, hsource⟩
  · exact h.texts text (List.mem_append_left _ (List.mem_flatMap.2 ⟨half, hhalf, htext⟩))

private theorem script {p : Path} (hp : p ∈ r.workshop.scripts) :
    r.before.disk.Gives t.buildDir p ∧ p.toText.IsUnreturned :=
  ⟨h.inputs p (List.mem_append_right _ hp),
    h.texts _ (List.mem_append_right _ (List.mem_map_of_mem hp))⟩

end Prepares

private theorem eq_ok_of_toOption {ε α : Type} {o : Except ε α} {x : α} (h : o.toOption = some x) :
    o = .ok x := by
  cases o with
  | error e => cases h
  | ok y =>
    cases h
    rfl

/-- The same build once more, in the world that the build left. -/
def again (r : Round) : Round := ⟨r.workshop, r.after⟩

/-- A split build that is repeated has compared the halves again, in the world `v`. The stages
after that comparison went well the first time, and left everything as it has to be. -/
private structure Resumed (t : Target) (r : Round) (first : BuildResult) (s : Workshop × World)
    (loader : Half) (l : Target.LoaderPlan) (x : Build.Extraction) (j : Build.Settlement)
    (s₀ s₁ : Workshop × World) (v : World) : Prop where
  plan : r.workshop.plan.loader = some l
  settled : Build.settle r.workshop.plan l x s₀ = .ok j s₁
  concluded : Build.conclude l x j s₁ = .ok first s
  upkept : Build.Upkept r.workshop.plan l loader r.workshop.application x j s.2.disk
  grounded : s.2.disk.Grounded
  tools : s.2.tools = r.before.tools
  liesIn : s₀.1.LiesIn t.buildDir
  quiet : Quiet Lists s.2 v
  compared : r.again.compared? = some (x, v)
  run : r.again.run = Build.finish r.workshop.plan l x (s₀.1, v)

section
variable (h : Prepares t r) {first : BuildResult} {s : Workshop × World}
  (hnames : ∀ half ∈ r.workshop.halves,
    ¬ (Half.Yields half.packages "" ∧ Half.Yields half.packages "."))
  (hok : r.run = .ok first s)
  (hfiles : ∀ p ∈ r.workshop.products,
    ¬ s.2.disk.files.IsDirectory (p.place r.before.disk.here))
include h hnames hok hfiles

private theorem again_single (hsplit : t.isSplit = false) :
    ∃ s', r.again.run = .ok first s' ∧ Spoken s.2 s'.2 := by
  rw [← Target.isSplit_of_ofTarget h.made] at hsplit
  have happlication := (Workshop.mem_halves_of_single (h := r.workshop.application) hsplit).2 rfl
  have hsingle {g : Round} (hg : g.workshop = r.workshop) :
      g.run = Build.onApplication (Build.single g.workshop.plan) (g.workshop, g.before) := by
    rcases g.run_cases with ⟨-, hrun⟩ | ⟨hsplit', -⟩
    · exact hrun
    · rw [hg, hsplit] at hsplit'
      cases hsplit'
  have hafter : r.after = s.2 := by
    rw [after, hok]
    rfl
  rw [hsingle rfl] at hok
  obtain ⟨u, hbuilt, rfl⟩ := within_eq_ok_iff.1 hok
  obtain ⟨hscript, htext⟩ := h.script (p := r.workshop.plan.linkerScript) List.mem_cons_self
  have hproducts : ∀ p ∈ r.workshop.application.binary :: r.workshop.application.outputs,
      p ∈ r.workshop.products := by
    refine List.forall_mem_cons.2 ⟨List.mem_append_right _ r.workshop.application_mem_binaries, ?_⟩
    exact fun p hp => List.mem_append_left _ (List.mem_flatMap.2 ⟨_, happlication, hp⟩)
  obtain ⟨hrests, hlinked⟩ := Build.rests_of_single (s := (r.workshop.application, r.before))
    h.liesIn.application (h.ready happlication (hnames _ happlication)) h.underway hscript htext hbuilt
    fun p hp => hfiles p (hproducts p hp)
  obtain ⟨v', ⟨console, new, hnew, rfl⟩, hrun⟩ :=
    Replays.onApplication r.workshop (Build.replays_single hbuilt hrests hlinked)
  rw [← hafter] at hrun
  refine ⟨_, (hsingle (g := r.again) rfl).trans hrun, console, ?_⟩
  rw [List.eq_nil_iff_forall_not_mem.2 hnew, List.append_nil, hafter]

/-- Both halves, the loader and the loader image need no more work after a split build. -/
private theorem again_split (hsplit : t.isSplit = true) :
    ∃ loader l x j s₀ s₁ v, Resumed t r first s loader l x j s₀ s₁ v := by
  rw [← Target.isSplit_of_ofTarget h.made] at hsplit
  have hafter : r.after = s.2 := by
    rw [after, hok]
    rfl
  obtain ⟨loader, l, x, j, s₀, s₁, hloader, hl, hhalves, hsettle, hconclude, -⟩ :=
    r.split_steps hsplit hok
  have hmem {half : Half} := Workshop.mem_halves_of_split (h := half) hsplit hloader
  have hready (half : Half) (hhalf : half = loader ∨ half = r.workshop.application) :=
    h.ready (hmem.2 hhalf) (hnames half (hmem.2 hhalf))
  have hlies := h.liesIn.loader loader hloader
  have hscripts : ∀ p ∈ [r.workshop.plan.linkerScript, l.secondScript],
      r.before.disk.Gives t.buildDir p ∧ p.toText.IsUnreturned := by
    refine fun p hp => h.script ?_
    rw [Workshop.scripts, hl]
    exact hp
  have hproducts : ∀ p ∈ [loader.binary, loader.loaderImage, r.workshop.application.binary] ++
      (loader.outputs ++ r.workshop.application.outputs), p ∈ r.workshop.products := by
    rw [Workshop.products, Workshop.halves, Workshop.binaries, hsplit, hloader]
    simp only [if_true, Option.toList_some, List.flatMap_append, List.flatMap_singleton,
      List.mem_append, List.mem_cons, List.not_mem_nil, or_false]
    tauto
  obtain ⟨hupkept, hu⟩ := Build.upkept (s := (r.workshop, r.before)) hlies h.liesIn
    (hready loader (.inl rfl)) (hready _ (.inr rfl)) h.underway hscripts hhalves hsettle hconclude
    fun p hp => hfiles p (hproducts p hp)
  have hs₀ : s₀.1.LiesIn t.buildDir := ((Build.obeys_halves conduct_anyhow (asksIn_anyhow _) h.liesIn
    hlies r.workshop.plan).ok hhalves h.liesIn).1
  obtain ⟨v, hv, hagain⟩ := Build.replays_halves (v := s.2) (s := (r.workshop, r.before)) hupkept
    hhalves hu.progressed.tools
  rw [← hafter] at hagain
  rcases r.again.run_cases with ⟨hsingle, -⟩ | ⟨-, loader', l', hloader', hl', hrun, hcompared⟩
  · cases hsplit.symm.trans hsingle
  · cases hloader.symm.trans hloader'
    cases hl.symm.trans hl'
    exact ⟨loader, l, x, j, s₀, s₁, v,
      { plan := hl
        settled := hsettle
        concluded := hconclude
        upkept := hupkept
        grounded := hu.progressed.disk.grounded
        tools := hu.progressed.tools
        liesIn := hs₀
        quiet := hv
        compared := hcompared x _ hagain
        run := hrun.trans (Action.bind_of_ok hagain) }⟩

/-- Whatever the loader image is found to export, no more than the application is linked again. -/
private theorem again_split_commands (hsplit : t.isSplit = true) :
    ∃ new, r.again.after.commands = s.2.commands ++ new ∧
      ∀ c ∈ new, c.Lists ∨ c.LinksApplication t.buildDir := by
  obtain ⟨_, l, x, j, s₀, s₁, v, g⟩ := again_split h hnames hok hfiles hsplit
  have hdisk := g.quiet.unmoved.disk
  have hfinish := Build.obeys_finish_of_fresh r.workshop.plan l (s := (s₀.1, v)) g.liesIn
    (hdisk ▸ g.upkept.image.fresh)
  obtain ⟨-, -, later, hlater, hkinds, -⟩ := (hfinish.keeps g.liesIn).2 (hdisk ▸ g.grounded)
  have hrun := g.run
  obtain ⟨console, new, hnew, rfl⟩ := g.quiet
  refine ⟨new ++ later, ?_, List.forall_mem_append.2 ⟨fun c hc => .inl (hnew c hc), hkinds⟩⟩
  rw [after, hrun, hlater, List.append_assoc]

/-- With the exports read back that give the same packages, the application is not linked again. -/
private theorem again_split_ok (hsplit : t.isSplit = true) {exported : SymbolTable}
    (hread : r.again.readBack? = some (exported, first.commonPackages)) :
    ∃ s', r.again.run = .ok { first with exported, regenerated := false } s' ∧
      Quiet Lists s.2 s'.2 := by
  obtain ⟨_, l, x, j, s₀, s₁, v, g⟩ := again_split h hnames hok hfiles hsplit
  have hunmoved := g.quiet.unmoved
  obtain ⟨-, hcommon, -⟩ := Build.conclude_steps g.concluded
  -- what was read back
  unfold readBack? at hread
  rw [g.compared, show r.again.workshop.plan.loader = some l from g.plan, Option.bind_eq_bind,
    Option.bind_some] at hread
  dsimp only at hread
  rw [Option.bind_eq_bind, Option.bind_some] at hread
  obtain ⟨imported, himported, hread⟩ := Option.bind_eq_some_iff.1 hread
  obtain ⟨skip, hskip, hread⟩ := Option.bind_eq_some_iff.1 hread
  obtain ⟨keep, hkeep, hread⟩ := Option.bind_eq_some_iff.1 hread
  obtain ⟨hwhole, hresult⟩ := Option.ite_none_right_eq_some.1 hread
  obtain ⟨rfl, hpackages⟩ := Prod.mk.inj (Option.some.inj hresult)
  have himage := ((LoaderImage.answers_readExports _ _ v).of_ok (eq_ok_of_answer? himported)).1
  rw [hunmoved.tools] at himage
  -- the stages once more
  obtain ⟨v₁, hv₁, hsettled⟩ := Build.replays_settle g.settled
    (hunmoved.disk ▸ g.upkept.image.fresh) (hunmoved.tools ▸ himage)
    (eq_ok_of_toOption hskip) hwhole (eq_ok_of_toOption hkeep) (hpackages.trans hcommon)
  have hunmoved₁ := trans_of Unmoved hunmoved hv₁.unmoved
  have hrules : v₁.tools.rules = [] := by
    rw [hunmoved₁.tools, g.tools, h.rules]
  obtain ⟨v₂, hv₂, hconcluded⟩ := Build.replays_conclude g.concluded imported false
    (hunmoved₁.disk ▸ g.upkept.result)
    (List.forall_mem_cons.2 ⟨Build.exists_linkedTable g.upkept.linked hrules,
      List.forall_mem_singleton.2 (Build.exists_linkedTable g.upkept.result hrules)⟩)
  refine ⟨(s.1, v₂), g.run.trans ?_,
    trans_of (Quiet Lists) g.quiet (trans_of (Quiet Lists) hv₁ hv₂)⟩
  rw [Build.finish_eq]
  exact (Action.bind_of_ok hsettled).trans hconcluded

/-- A build that has succeeded is repeated without making anything again, unless a package without a
name meets one named by a dot, or a directory stands where a file is to be made. A single image is
built again without a command. Of a split image the application is linked again at most, and not even
that when the exports read back from the loader image share the same packages. -/
theorem nothing_made_again :
    (t.isSplit = false → ∃ s', r.again.run = .ok first s' ∧ Spoken s.2 s'.2) ∧
      (t.isSplit = true →
        (∃ new, r.again.after.commands = s.2.commands ++ new ∧
          ∀ c ∈ new, c.Lists ∨ c.LinksApplication t.buildDir) ∧
        ∀ exported, r.again.readBack? = some (exported, first.commonPackages) →
          ∃ s', r.again.run = .ok { first with exported, regenerated := false } s' ∧
            Quiet Lists s.2 s'.2) :=
  ⟨again_single h hnames hok hfiles, fun hsplit =>
    ⟨again_split_commands h hnames hok hfiles hsplit, fun _ hread =>
      again_split_ok h hnames hok hfiles hsplit hread⟩⟩

end

/-- The loader image shows the function that it exports. -/
def listedRound : Round where
  workshop := sharedRound.workshop
  before := { sharedRound.before with
    tools := ⟨[], ("o/loader/loader_rom.elf", sharedListing) :: sharedRound.before.tools.listings⟩ }

private theorem listedRound_facts :
    (answer? listedRound.run).map (·.commonPackages) = some [Text.ofString "q"] ∧
      listedRound.again.readBack?.map (·.2) = some [Text.ofString "q"] ∧
      listedRound.before.disk.Grounded ∧ listedRound.before.disk.Punctual ∧
      (∀ p ∈ listedRound.workshop.inputs, listedRound.before.disk.Gives History.exampleDir p) ∧
      (∀ text ∈ listedRound.workshop.linkTexts, text.IsUnreturned) ∧
      (∀ half ∈ listedRound.workshop.halves,
        ¬ (Half.Yields half.packages "" ∧ Half.Yields half.packages ".")) ∧
      ∀ p ∈ listedRound.workshop.products,
        ¬ (leaves listedRound.run).2.disk.files.IsDirectory
          (p.place listedRound.before.disk.here) := by
  decide +kernel

/-- The application takes the package from the loader in both builds. -/
theorem nothing_made_again_listed :
    ∃ first s exported s', listedRound.run = .ok first s ∧
      first.commonPackages = [Text.ofString "q"] ∧
      listedRound.again.readBack? = some (exported, first.commonPackages) ∧
      listedRound.again.run = .ok { first with exported, regenerated := false } s' ∧
      Quiet Lists s.2 s'.2 := by
  obtain ⟨hanswer, hread, hgrounded, hpunctual, hinputs, htexts, hnames, hfiles⟩ := listedRound_facts
  have hprepares : Prepares (History.exampleTarget [History.examplePackage "q" "q.c"]) listedRound :=
    { made := History.ofTarget_exampleTarget _
      orderly := History.orderly_exampleTarget
        (List.forall_mem_singleton.2 (History.orderly_examplePackage (by decide)))
      plain := History.plain_exampleDir
      rules := rfl
      grounded := hgrounded
      punctual := hpunctual
      inputs := hinputs
      texts := htexts }
  obtain ⟨first, hfirst, hcommon⟩ := Option.map_eq_some_iff.1 hanswer
  obtain ⟨⟨exported, packages⟩, hread, rfl⟩ := Option.map_eq_some_iff.1 hread
  have hok := eq_ok_of_answer? hfirst
  obtain ⟨-, hsplit⟩ := nothing_made_again hprepares hnames hok hfiles
  rw [← hcommon] at hread
  obtain ⟨s', hrun, hquiet⟩ := (hsplit rfl).2 exported hread
  exact ⟨first, _, exported, s', hok, hcommon, hread, hrun, hquiet⟩

/-- A package named by a dot and one without a name, which both go to the directory of all objects. -/
def crossedTarget : Target where
  name := .text "t"
  buildDir := History.exampleDir
  compiler := some ⟨.text "", [], []⟩
  board := some History.exampleBoard
  application := some ⟨.text "m", [History.examplePackage "." "x.c",
    ⟨.text "", [⟨.relative, ["d", "x.c"]⟩], [], []⟩]⟩
  loader := none
  features := []

/-- The object has been made for the first package, and the source of the second one is newer. -/
def crossedRound : Round where
  workshop := .ofPlan crossedTarget {
    board := History.exampleBoard
    compiler := ⟨.text "", [], []⟩
    application := ⟨.text "m", [History.examplePackage "." "x.c",
      ⟨.text "", [⟨.relative, ["d", "x.c"]⟩], [], []⟩]⟩
    linkerScript := ⟨.relative, ["l"]⟩
    loader := none }
  before :=
    { disk := ⟨⟨[([], .directory 1), (["l"], .file 1 ""), (["x.c"], .file 40 ""), (["d"], .directory 1),
        (["d", "x.c"], .file 60 ""), (["o"], .directory 1), (["o", "app"], .directory 1),
        (["o", "app", "obj"], .directory 1), (["o", "app", "obj", "x.o"], .file 50 ""),
        (["o", "app", "lib"], .directory 1), (["o", "app", "lib", "..a"], .file 55 "")]⟩, 100, 100, []⟩
      tools := ⟨[], []⟩
      buildDirVariable := none
      console := .ofVerbosity 0
      commands := [] }

/-- The archive of the first package, and the binary. -/
def crossedCommands : List Command :=
  [["ar", "rcs", "o/app/lib/..a", "o/app/obj/x.o"],
    ["gcc", "-o", "o/app/app.elf", "-Tl", "-Wl,-Map=o/app/app.elf.map", "-Wl,--start-group",
      "o/app/lib/..a", "o/app/lib/.a", "-Wl,--end-group"]]

private theorem crossedRound_facts :
    (answer? crossedRound.run).isSome ∧
      crossedRound.again.after.commands = crossedRound.after.commands ++ crossedCommands ∧
      crossedRound.before.disk.Grounded ∧ crossedRound.before.disk.Punctual ∧
      (∀ p ∈ crossedRound.workshop.inputs, crossedRound.before.disk.Gives History.exampleDir p) ∧
      (∀ text ∈ crossedRound.workshop.linkTexts, text.IsUnreturned) ∧
      ∀ p ∈ crossedRound.workshop.products,
        ¬ crossedRound.after.disk.files.IsDirectory (p.place crossedRound.before.disk.here) := by
  decide +kernel

/-- The object of the second package is newer than the archive of the first one, and so this archive is
made again, of the object of the second package. -/
theorem archive_made_again :
    Prepares crossedTarget crossedRound ∧
      (∀ p ∈ crossedRound.workshop.products,
        ¬ crossedRound.after.disk.files.IsDirectory (p.place crossedRound.before.disk.here)) ∧
      (∃ first s, crossedRound.run = .ok first s) ∧
      crossedRound.again.after.commands = crossedRound.after.commands ++ crossedCommands := by
  obtain ⟨hanswer, hcommands, hgrounded, hpunctual, hinputs, htexts, hfiles⟩ := crossedRound_facts
  obtain ⟨first, hfirst⟩ := Option.isSome_iff_exists.1 hanswer
  refine ⟨?_, hfiles, ⟨first, _, eq_ok_of_answer? hfirst⟩, hcommands⟩
  have horderly : crossedTarget.Orderly crossedTarget.buildDir := by
    refine ⟨rfl, ?_, ?_, ?_, ?_⟩
    · rintro _ ⟨⟩
      exact List.forall_mem_nil _
    · rintro _ ⟨⟩
      exact ⟨List.forall_mem_nil _, List.forall_mem_nil _⟩
    · rintro _ ⟨⟩
      refine List.forall_mem_cons.2 ⟨History.orderly_examplePackage (by decide), ?_⟩
      refine List.forall_mem_singleton.2 ⟨List.forall_mem_nil _, List.forall_mem_singleton.2 ?_⟩
      unfold Path.Plain
      decide
    · rintro _ ⟨⟩
  exact
    { made := rfl
      orderly := horderly
      plain := History.plain_exampleDir
      rules := rfl
      grounded := hgrounded
      punctual := hpunctual
      inputs := hinputs
      texts := htexts }

end Round
end DualImage
