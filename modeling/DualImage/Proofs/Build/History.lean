import DualImage.Proofs.Build.Extraction
import DualImage.Proofs.Build.Plan

/-! Builds one after another in one directory, each with packages of its own. -/
namespace DualImage
open Half (imagePath SettledIn)
open World (Spares Renews)
open Build (Extraction)
variable {dir : Path}

namespace Build
variable {workshop : Workshop}

theorem run_of_split {loader : Half} {l : Target.LoaderPlan} (hloader : workshop.loader = some loader)
    (hl : workshop.plan.loader = some l) (w : World) :
    run (workshop, w) = (halves workshop.plan loader >>= finish workshop.plan l) (workshop, w) := by
  have hget : (MonadState.get : BuildAction (Workshop × World)) (workshop, w) =
    .ok (workshop, w) (workshop, w) := rfl
  rw [← split_eq]
  unfold run
  rw [Action.bind_of_ok hget]
  dsimp only
  rw [hloader, hl]

theorem run_of_single (h : workshop.loader = none ∨ workshop.plan.loader = none) (w : World) :
    run (workshop, w) = onApplication (single workshop.plan) (workshop, w) := by
  have hget : (MonadState.get : BuildAction (Workshop × World)) (workshop, w) =
    .ok (workshop, w) (workshop, w) := rfl
  unfold run
  rw [Action.bind_of_ok hget]
  dsimp only
  rcases h with hloader | hl
  · rw [hloader]
  · rw [hl]
    cases workshop.loader <;> rfl

end Build

/-- One build among others, of a workshop that is new or that an earlier build has left. -/
structure Round where
  workshop : Workshop
  before : World

namespace Round
variable {r : Round}

def run (r : Round) : EStateM.Result Failure (Workshop × World) BuildResult :=
  Build.run (r.workshop, r.before)

def after (r : Round) : World := (leaves r.run).2

/-- The halves as a split build compares them, and the world at that moment. -/
def compared? (r : Round) : Option (Extraction × World) :=
  match r.workshop.loader, r.workshop.plan.loader with
  | some loader, some _ =>
    match Build.halves r.workshop.plan loader (r.workshop, r.before) with
    | .ok x s => some (x, s.2)
    | .error .. => none
  | _, _ => none

/-- The build found no conflict between its halves. -/
def Peaceful (r : Round) : Prop := ∃ x w, r.compared? = some (x, w) ∧ x.Peaceful

/-- The listing of an archive changes only when the archive is written anew. -/
def ListsAs (r g : Round) : Prop :=
  ∀ x w, r.compared? = some (x, w) → ∀ package path, (package, path) ∈ x.shelf →
    ∀ e, w.disk.entry path = .ok e → e.time ≤ g.after.disk.clock →
      ∀ c, r.before.tools.dump c path = g.before.tools.dump c path

/-- A build is of one image, or its halves come first and the rest after them. -/
theorem run_cases (r : Round) :
    r.workshop.isSplit = false ∧
        r.run = Build.onApplication (Build.single r.workshop.plan) (r.workshop, r.before) ∨
      r.workshop.isSplit = true ∧ ∃ loader l, r.workshop.loader = some loader ∧
        r.workshop.plan.loader = some l ∧
          r.run = (Build.halves r.workshop.plan loader >>= Build.finish r.workshop.plan l)
          (r.workshop, r.before) ∧
        ∀ x s, Build.halves r.workshop.plan loader (r.workshop, r.before) = .ok x s →
          r.compared? = some (x, s.2) := by
  cases hloader : r.workshop.loader with
  | none =>
    refine .inl ⟨?_, Build.run_of_single (.inl hloader) _⟩
    rw [Workshop.isSplit, hloader]
    rfl
  | some loader =>
    cases hl : r.workshop.plan.loader with
    | none =>
      refine .inl ⟨?_, Build.run_of_single (.inr hl) _⟩
      rw [Workshop.isSplit, hloader, hl]
      rfl
    | some l =>
      refine .inr ⟨?_, loader, l, rfl, rfl, Build.run_of_split hloader hl _, fun x s hx => ?_⟩
      · rw [Workshop.isSplit, hloader, hl]
        rfl
      · unfold compared?
        rw [hloader, hl]
        dsimp only
        rw [hx]

section
variable (ho : r.workshop.Orderly dir)
include ho

private theorem within_run :
    Build.Within dir (Renews (imagePath dir) r.Peaceful) (r.workshop, r.before) (leaves r.run) := by
  rcases r.run_cases with ⟨-, hrun⟩ | ⟨-, loader, l, hloader, -, hrun, hcompared⟩
  · rw [hrun]
    have hsingle : Keeps (Build.Within dir (Spares (imagePath dir)))
        (Build.onApplication (Build.single r.workshop.plan)) :=
      Build.keeps_onApplication (Build.keeps_single r.workshop.plan)
    exact fun hs => (hsingle _ hs).imp_right Spares.renews
  · obtain ⟨hsettled, hname⟩ := ho.loader loader hloader
    rw [hrun, Action.bind_apply]
    have hhalves : Keeps (Build.Within dir (Renews (imagePath dir) r.Peaceful))
        (Build.halves r.workshop.plan loader) :=
      (Build.keeps_halves r.workshop.plan hsettled hname).mono fun s s' hw hs =>
        (hw hs).imp_right Spares.renews
    cases hx : Build.halves r.workshop.plan loader (r.workshop, r.before) with
    | error f s => exact hhalves.error hx
    | ok x s =>
      obtain ⟨-, hsettled', hname', -⟩ := Build.halves_eq_ok ho hsettled hname hx
      refine trans_of (Build.Within dir _) (hhalves.ok hx) fun hs => ?_
      obtain ⟨hs', hw⟩ := Build.keeps_finish r.workshop.plan l hsettled' hname' s hs
      exact ⟨hs', hw.imp fun hpeaceful => ⟨x, s.2, hcompared x s hx, hpeaceful⟩⟩

/-- A build renews the loader image only when it found no conflict. -/
theorem renews : Renews (imagePath dir) r.Peaceful r.before r.after := (within_run ho ho).2

/-- The compared symbols are those that the tools list, and the loader image is what it was. -/
theorem compared?_eq_some {x : Extraction} {w : World} (hx : r.compared? = some (x, w)) :
    x.Of r.before.tools ∧ Spares (imagePath dir) r.before w := by
  unfold compared? at hx
  split at hx
  · next loader l hloader hl =>
    split at hx
    · next y s hhalves =>
      cases hx
      obtain ⟨hsettled, hname⟩ := ho.loader loader hloader
      obtain ⟨hof, -, -, hspares⟩ := Build.halves_eq_ok ho hsettled hname hhalves
      exact ⟨hof, hspares⟩
    · cases hx
  · cases hx

/-- What a successful split build found when it came to compare its halves. -/
theorem run_eq_ok {result : BuildResult} {s' : Workshop × World}
    (hsplit : r.workshop.isSplit = true) (hok : r.run = .ok result s') :
    ∃ x w, r.compared? = some (x, w) ∧
      (result.regenerated = false ↔ w.disk.Fresh (imagePath dir) x.inputs) ∧
      (result.regenerated = true → x.Peaceful) := by
  rcases r.run_cases with ⟨hsingle, -⟩ | ⟨-, loader, l, hloader, -, hrun, hcompared⟩
  · rw [hsplit] at hsingle
    cases hsingle
  · obtain ⟨hsettled, hname⟩ := ho.loader loader hloader
    rw [hrun, Action.bind_eq_ok_iff] at hok
    obtain ⟨x, s, hx, hfinish⟩ := hok
    obtain ⟨-, hsettled', hname', -⟩ := Build.halves_eq_ok ho hsettled hname hx
    have hend := Build.finish_eq_ok hfinish
    rw [Half.loaderImage_eq hname', hsettled'.2] at hend
    exact ⟨x, s.2, hcompared x s hx, hend⟩

end

end Round

/-- Builds in one directory, the latest first. The first finds no loader image, nobody else touches
the one that they make, and the clock does not go back between them. -/
inductive History (dir : Path) : List Round → Prop
  | start {r : Round} (ho : r.workshop.Orderly dir)
    (hnone : r.before.disk.files.find? ((imagePath dir).place r.before.disk.here) = none) :
    History dir [r]
  | next {r g : Round} {rest : List Round} (h : History dir (g :: rest))
    (ho : r.workshop.Orderly dir) (hspares : Disk.Spares (imagePath dir) g.after.disk r.before.disk)
    (hlists : ∀ e ∈ g :: rest, r.ListsAs e) : History dir (r :: g :: rest)

namespace History
variable {r : Round} {rest rounds : List Round} {d d' : Disk}

/-- The entry got its time in a build that found no conflict. -/
def Makes (g : Round) (e : Entry) : Prop :=
  g.Peaceful ∧ g.before.disk.clock < e.time ∧ e.time ≤ g.after.disk.clock

/-- A loader image that is there was made by one of the builds. -/
def MadeIn (dir : Path) (rounds : List Round) (d : Disk) : Prop :=
  ∀ e, d.files.find? ((imagePath dir).place d.here) = some e → ∃ g ∈ rounds, Makes g e

private theorem MadeIn.spares (h : MadeIn dir rounds d) (hd : Disk.Spares (imagePath dir) d d') :
    MadeIn dir rounds d' := by
  intro e he
  rw [hd.here, hd.entry] at he
  exact h e he

private theorem MadeIn.renews (h : MadeIn dir rest r.before.disk)
    (hr : Renews (imagePath dir) r.Peaceful r.before r.after) :
    MadeIn dir (r :: rest) r.after.disk := by
  intro e he
  rw [hr.here] at he
  rcases hr.entry with hsame | ⟨hpeaceful, e', he', hlt, hle⟩
  · rw [hsame] at he
    obtain ⟨g, hg, hmakes⟩ := h e he
    exact ⟨g, List.mem_cons_of_mem _ hg, hmakes⟩
  · rw [he'] at he
    cases he
    exact ⟨r, List.mem_cons_self, hpeaceful, hlt, hle⟩

private theorem orderly (h : History dir rounds) : ∀ g ∈ rounds, g.workshop.Orderly dir := by
  induction h with
  | start ho hnone =>
    intro g hg
    cases List.mem_singleton.1 hg
    exact ho
  | next h ho hspares hlists ih => exact List.forall_mem_cons.2 ⟨ho, ih⟩

private theorem listsAs (h : History dir (r :: rest)) : ∀ g ∈ rest, r.ListsAs g := by
  cases h with
  | start ho hnone => exact List.forall_mem_nil _
  | next h ho hspares hlists => exact hlists

/-- The latest build finds a loader image only of an earlier build without a conflict. -/
theorem madeIn (h : History dir (r :: rest)) : MadeIn dir rest r.before.disk := by
  generalize hrounds : r :: rest = rounds at h
  induction h generalizing r rest with
  | start ho hnone =>
    cases hrounds
    intro e he
    rw [hnone] at he
    cases he
  | @next r' g earlier h ho hspares hlists ih =>
    cases hrounds
    have hg := h.orderly g List.mem_cons_self
    exact ((ih rfl).renews (g.renews hg)).spares hspares

/-- A successful split build has compared its halves and found no conflict, unless the loader image
was up to date. Then an earlier build without a conflict has made the image, and the archives have the
symbols that they had at that time. So a conflict that passes unseen was there already, among
archives that the earlier build did not take together. -/
theorem peaceful_or_reused (h : History dir (r :: rest)) (hsplit : r.workshop.isSplit = true)
    {result : BuildResult} {s : Workshop × World} (hok : r.run = .ok result s) :
    ∃ x w, r.compared? = some (x, w) ∧
      (result.regenerated = false ↔ w.disk.Fresh (imagePath dir) x.inputs) ∧
      (result.regenerated = true → x.Peaceful) ∧
      (result.regenerated = false → ∃ g ∈ rest, ∃ y v, g.compared? = some (y, v) ∧ y.Peaceful ∧
        (∃ image, w.disk.entry (imagePath dir) = .ok image ∧ g.before.disk.clock < image.time ∧
          image.time ≤ g.after.disk.clock) ∧
        x.Of g.before.tools ∧ (x.SameArchives y → x.Peaceful)) := by
  have ho := h.orderly r List.mem_cons_self
  obtain ⟨x, w, hx, hfresh, hpeaceful⟩ := r.run_eq_ok ho hsplit hok
  obtain ⟨hof, hspares⟩ := r.compared?_eq_some ho hx
  refine ⟨x, w, hx, hfresh, hpeaceful, fun hreused => ?_⟩
  obtain ⟨image, himage, hinputs⟩ := hfresh.1 hreused
  obtain ⟨place, hplace, hfind⟩ := Disk.entry_eq_ok_iff.1 himage
  rw [Disk.eq_place_of_locate hplace] at hfind
  obtain ⟨g, hg, ⟨y, v, hy, hquiet⟩, hlt, hle⟩ := h.madeIn.spares hspares.disk image hfind
  have hstill : x.Of g.before.tools := by
    refine hof.of_dumps fun c entry hentry => ?_
    have hinput : entry.2 ∈ x.inputs := List.mem_cons_of_mem _ (List.mem_map_of_mem hentry)
    obtain ⟨e, he, hnewer⟩ := hinputs entry.2 hinput
    exact h.listsAs g hg x w hx entry.1 entry.2 hentry e he (Int.le_trans hnewer hle) c
  obtain ⟨hof', -⟩ := g.compared?_eq_some (h.orderly g (List.mem_cons_of_mem _ hg)) hy
  exact ⟨g, hg, y, v, hy, hquiet, ⟨image, himage, hlt, hle⟩, hstill,
    fun hsame => hstill.peaceful hof' hsame hquiet⟩

/-- A package of one source, without flags. -/
def examplePackage (name source : String) : Package := ⟨.text name, [⟨.relative, [source]⟩], [], []⟩

def exampleDir : Path := ⟨.relative, ["o"]⟩

def exampleBoard : Board :=
  ⟨⟨.text "b", [], [], []⟩, some ⟨.relative, ["l"]⟩, some ⟨.relative, ["s"]⟩, []⟩

/-- The loader has one package, and the application those that are given. -/
def exampleTarget (application : List Package) : Target where
  name := .text "t"
  buildDir := exampleDir
  compiler := some ⟨.text "", [], []⟩
  board := some exampleBoard
  application := some ⟨.text "m", application⟩
  loader := some ⟨.text "n", [examplePackage "q" "q.c"]⟩
  features := []

def exampleWorkshop (application : List Package) : Workshop :=
  .ofPlan (exampleTarget application) {
    board := exampleBoard
    compiler := ⟨.text "", [], []⟩
    application := ⟨.text "m", application⟩
    linkerScript := ⟨.relative, ["l"]⟩
    loader := some ⟨⟨.text "n", [examplePackage "q" "q.c"]⟩, ⟨.relative, ["s"]⟩⟩ }

theorem ofTarget_exampleTarget (application : List Package) :
    Workshop.ofTarget (exampleTarget application) = .ok (exampleWorkshop application) := rfl

/-- Two packages whose archives define the variable x in different sizes. -/
def exampleStart : World where
  disk := ⟨⟨[([], .directory 1), (["l"], .file 1 ""), (["s"], .file 1 ""), (["p.c"], .file 1 ""),
    (["q.c"], .file 1 "")]⟩, 1, 100, []⟩
  tools := ⟨[], [("o/app/lib/p.a", "00000004       O *COM*\t00000004 x\n"),
    ("o/loader/lib/q.a", "00000000 g     O .data\t00000008 x\n")]⟩
  buildDirVariable := none
  console := .ofVerbosity 0
  commands := []

/-- Refused for the conflict. -/
def firstRound : Round := ⟨exampleWorkshop [examplePackage "p" "p.c"], exampleStart⟩

/-- Makes the loader image without the package of the application. -/
def secondRound : Round := ⟨exampleWorkshop [], firstRound.after⟩

/-- Takes the package in again. Its archive is older than the loader image. -/
def thirdRound : Round := ⟨exampleWorkshop [examplePackage "p" "p.c"], secondRound.after⟩

/-- The rounds at a glance: what the third one answers and compares, and the times before each. -/
private theorem thirdRound_facts :
    (answer? thirdRound.run).map (·.regenerated) = some false ∧
      thirdRound.compared?.map (fun c =>
        (c.1.loaderSymbols.compare true c.1.applicationSymbols).conflicts.isEmpty) = some false ∧
      ∀ g ∈ [thirdRound, secondRound, firstRound], ∀ e ∈ g.before.disk.files.entries,
        e.2.time ≤ if e.2.isDirectory then g.before.disk.systemTime else g.before.disk.clock := by
  decide +kernel

theorem orderly_examplePackage {name source : String} (h : Path.IsPart source) :
    (examplePackage name source).Orderly :=
  ⟨List.forall_mem_nil _, List.forall_mem_singleton.2 (List.forall_mem_singleton.2 h)⟩

theorem orderly_exampleTarget {application : List Package} (h : ∀ p ∈ application, p.Orderly) :
    (exampleTarget application).Orderly exampleDir := by
  refine ⟨rfl, ?_, ?_, ?_, ?_⟩
  · rintro _ ⟨⟩
    exact List.forall_mem_nil _
  · rintro _ ⟨⟩
    exact ⟨List.forall_mem_nil _, List.forall_mem_nil _⟩
  · rintro _ ⟨⟩
    exact h
  · rintro _ ⟨⟩
    exact List.forall_mem_singleton.2 (orderly_examplePackage (by decide))

theorem plain_exampleDir : exampleDir.Plain := by
  unfold Path.Plain
  decide

private theorem orderly_exampleWorkshop {application : List Package}
    (h : ∀ p ∈ application, p.Orderly) : (exampleWorkshop application).Orderly exampleDir :=
  (orderly_exampleTarget h).workshop plain_exampleDir (Half.misses_imagePath (by decide))
    (ofTarget_exampleTarget application)

/-- Builds that follow each other at once, with tools that stay the same. -/
private theorem listsAs_of_tools {r g : Round} (h : r.before.tools = g.before.tools) :
    r.ListsAs g := by
  intro x w hx package path hpath e he hle c
  rw [h]

theorem exampleHistory : History exampleDir [thirdRound, secondRound, firstRound] := by
  have hfirst : firstRound.workshop.Orderly exampleDir :=
    orderly_exampleWorkshop (List.forall_mem_singleton.2 (orderly_examplePackage (by decide)))
  have hsecond : secondRound.workshop.Orderly exampleDir :=
    orderly_exampleWorkshop (List.forall_mem_nil _)
  have htools₁ := (firstRound.renews hfirst).tools
  have htools₂ := (secondRound.renews hsecond).tools
  refine .next (.next (.start hfirst rfl) hsecond (refl_of _ _) ?_) hfirst (refl_of _ _) ?_
  · exact List.forall_mem_singleton.2 (listsAs_of_tools htools₁)
  · refine List.forall_mem_cons.2 ⟨listsAs_of_tools htools₂, List.forall_mem_singleton.2 ?_⟩
    exact listsAs_of_tools (htools₂.trans htools₁)

private theorem thirdRound_ok :
    ∃ result s, thirdRound.run = .ok result s ∧ result.regenerated = false := by
  obtain ⟨result, hresult, hreused⟩ := Option.map_eq_some_iff.1 thirdRound_facts.1
  exact ⟨result, _, eq_ok_of_answer? hresult, hreused⟩

theorem thirdRound_reuses :
    ∃ x w, thirdRound.compared? = some (x, w) ∧
      ∃ g ∈ [secondRound, firstRound], ∃ y v, g.compared? = some (y, v) ∧ y.Peaceful ∧
        x.Of g.before.tools ∧ (x.SameArchives y → x.Peaceful) := by
  obtain ⟨result, s, hok, hreused⟩ := thirdRound_ok
  obtain ⟨x, w, hx, -, -, hmade⟩ :=
    peaceful_or_reused exampleHistory rfl hok
  obtain ⟨g, hg, y, v, hy, hquiet, -, hstill, hsame⟩ := hmade hreused
  exact ⟨x, w, hx, g, hg, y, v, hy, hquiet, hstill, hsame⟩

/-- In a directory that was empty at first, with no file from the future, a build succeeds although
its halves are in conflict. -/
theorem conflict_passes_unseen :
    (History exampleDir [thirdRound, secondRound, firstRound] ∧
      (∀ g ∈ [thirdRound, secondRound, firstRound], g.before.disk.Timely) ∧
      ∀ e ∈ firstRound.before.disk.files.entries, ¬ exampleDir.place [] <+: e.1) ∧
    ∃ result s, thirdRound.run = .ok result s ∧
      ∃ x w, thirdRound.compared? = some (x, w) ∧ ¬ x.Peaceful := by
  obtain ⟨-, hconflict, htimes⟩ := thirdRound_facts
  obtain ⟨result, s, hok, -⟩ := thirdRound_ok
  obtain ⟨⟨x, w⟩, hx, hpairs⟩ := Option.map_eq_some_iff.1 hconflict
  refine ⟨⟨exampleHistory, fun g hg => Disk.timely_of_entries (htimes g hg), by decide⟩,
    result, s, hok, x, w, hx, fun hpeaceful => ?_⟩
  rw [hpeaceful] at hpairs
  cases hpairs

end History

end DualImage
