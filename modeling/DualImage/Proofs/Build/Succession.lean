import DualImage.Proofs.Build.Compiling

/-! Builds one after another of targets that may differ, and what the objects were last compiled for.
An object that is up to date is not compiled again, so it keeps the features of the build that compiled
it. For the loader these are always those of a loader, and for the application those of a single image
or of an application beside a loader. -/
namespace DualImage
variable {dir object : Path}

namespace Workshop
variable {workshop workshop' : Workshop} {h : Half}

theorem eq_of_mem_halves (hh : h ∈ workshop.halves) :
    h = workshop.application ∨ workshop.loader = some h := by
  unfold halves at hh
  split at hh
  · simpa [or_comm] using hh
  · exact .inl (List.mem_singleton.1 hh)

theorem Regular.of_mem_halves (hw : workshop.Regular) (hh : h ∈ workshop.halves) : h.Regular := by
  rcases eq_of_mem_halves hh with rfl | hl
  · exact hw.application
  · exact (hw.loader h hl).1

theorem Regular.remains (hw : workshop.Regular) (h : workshop.Remains workshop') :
    workshop'.Regular where
  application := by
    obtain ⟨archives, packages, hsub, hsame⟩ := h.application
    rw [hsame]
    exact (hw.application.of_archives archives).of_packages hsub
  loader l' hl' := by
    obtain ⟨l, hl, archives, packages, hsub, rfl⟩ := h.exists_loader hl'
    obtain ⟨hregular, hname⟩ := hw.loader l hl
    exact ⟨(hregular.of_archives archives).of_packages hsub, hname⟩

end Workshop

namespace Target
variable {t : Target} {workshop : Workshop}

theorem Served.regular (h : t.Served workshop) (ht : t.Orderly dir) (hplain : dir.Plain) :
    workshop.Regular := by
  obtain ⟨made, hmade, hremains⟩ := h.remains
  exact (ht.regular hplain hmade).remains hremains

theorem Served.loader_feature (h : t.Served workshop) {l : Half} (hl : workshop.loader = some l) :
    .text "SPLIT_LOADER" ∈ l.features := by
  obtain ⟨made, hmade, hremains⟩ := h.remains
  obtain ⟨plan, -, rfl⟩ := ofTarget_eq_ok hmade
  obtain ⟨_, hmade, _, _, -, rfl⟩ := hremains.exists_loader hl
  obtain ⟨_, -, rfl⟩ := Option.map_eq_some_iff.1 hmade
  exact List.mem_append_right _ (List.mem_singleton_self _)

theorem Served.application_feature (h : t.Served workshop) (hsplit : workshop.isSplit = true) :
    .text "SPLIT_APPLICATION" ∈ workshop.application.features := by
  obtain ⟨made, hmade, hremains⟩ := h.remains
  obtain ⟨plan, -, rfl⟩ := ofTarget_eq_ok hmade
  obtain ⟨_, _, -, hsame⟩ := hremains.application
  have hloader : plan.loader.isSome = true := by
    rw [Workshop.isSplit, hremains.plan] at hsplit
    exact (Bool.and_eq_true_iff.1 hsplit).2
  rw [hsame]
  refine List.mem_append_right _ ?_
  rw [if_pos hloader]
  exact List.mem_singleton_self _

end Target

namespace Round
variable {r g : Round} {rounds : List Round} {place : Place} {c : Command}

/-- The commands that the build has started. -/
def started (r : Round) : List Command := r.after.commands.drop r.before.commands.length

/-- The last command of the build that compiles to this place. -/
def lastCompile? (place : Place) (r : Round) : Option Command :=
  r.started.reverse.find? fun c => c.Compiles r.before.disk.here place

/-- The last command that compiles to this place, and the build that it belongs to. The latest build
comes first. -/
def latestCompile? (place : Place) (rounds : List Round) : Option (Round × Command) :=
  rounds.findSome? fun g => (g.lastCompile? place).map (g, ·)

theorem latestCompile?_eq_some (h : latestCompile? place rounds = some (g, c)) :
    g ∈ rounds ∧ c ∈ g.started ∧ c.Compiles g.before.disk.here place := by
  obtain ⟨g', hg, hlast⟩ := List.exists_of_findSome?_eq_some h
  obtain ⟨c', hc, heq⟩ := Option.map_eq_some_iff.1 hlast
  cases heq
  exact ⟨hg, List.mem_reverse.1 (List.mem_of_find?_eq_some hc), by simpa using List.find?_some hc⟩

theorem latestCompile?_of_last (h : r.lastCompile? place = some c) :
    latestCompile? place (r :: rounds) = some (r, c) := by
  rw [latestCompile?, List.findSome?_cons, h]
  rfl

theorem isSome_latestCompile?_cons (h : (latestCompile? place rounds).isSome = true) :
    (latestCompile? place (r :: rounds)).isSome = true := by
  rw [latestCompile?, List.findSome?_cons]
  split
  · rfl
  · exact h

/-- The target of the build belongs in this directory. -/
structure Serves (dir : Path) (r : Round) : Prop where
  target : ∃ t : Target, t.Orderly dir ∧ t.Served r.workshop
  grounded : r.before.disk.Grounded

namespace Serves
variable (hr : r.Serves dir) (hplain : dir.Plain)
include hr

theorem liesIn : r.workshop.LiesIn dir := by
  obtain ⟨⟨t, ht, hserved⟩, -⟩ := hr
  exact ht.buildDir ▸ hserved.liesIn

theorem buildDir_of_mem {h : Half} (hh : h ∈ r.workshop.halves) : h.buildDir = dir := by
  rcases Workshop.eq_of_mem_halves hh with rfl | hl
  · exact hr.liesIn.application.2
  · exact (hr.liesIn.loader h hl).2

/-- A half by the name of loaders has their feature. -/
theorem loader_feature {h : Half} (hh : h ∈ r.workshop.halves) (hname : h.name = "loader") :
    .text "SPLIT_LOADER" ∈ h.features := by
  rcases Workshop.eq_of_mem_halves hh with rfl | hl
  · rw [hr.liesIn.application.1] at hname
    exact absurd hname (by decide)
  · obtain ⟨⟨t, -, hserved⟩, -⟩ := hr
    exact hserved.loader_feature hl

theorem eq_application {h : Half} (hh : h ∈ r.workshop.halves) (hname : h.name = "app") :
    h = r.workshop.application := by
  rcases Workshop.eq_of_mem_halves hh with rfl | hl
  · rfl
  · rw [(hr.liesIn.loader h hl).1] at hname
    exact absurd hname (by decide)

theorem application_feature (hsplit : r.workshop.isSplit = true) :
    .text "SPLIT_APPLICATION" ∈ r.workshop.application.features := by
  obtain ⟨⟨t, -, hserved⟩, -⟩ := hr
  exact hserved.application_feature hsplit

include hplain

theorem regular : r.workshop.Regular := by
  obtain ⟨⟨t, ht, hserved⟩, -⟩ := hr
  exact hserved.regular ht hplain

/-- What the build has compiled was ordered by its halves, and it has compiled the object or left the
file as it was. -/
theorem step (hobject : ∀ here, (object.place here).EndsIn 'o') :
    r.after.disk.here = r.before.disk.here ∧ (∀ c ∈ r.started, r.workshop.Orders c) ∧
      (r.after.disk.files.file? (object.place r.before.disk.here) =
          r.before.disk.files.file? (object.place r.before.disk.here) ∨
        ∃ c, r.lastCompile? (object.place r.before.disk.here) = some c) := by
  obtain ⟨hhere, -, new, hcommands, horders, hfiles⟩ :=
    r.withholds (hr.regular hplain) hr.liesIn hobject hr.grounded
  have hnew : r.started = new := by
    rw [started, hcommands, List.drop_left]
  obtain ⟨-, hfile⟩ := hfiles object (List.mem_singleton_self object)
  refine ⟨hhere, hnew ▸ horders, hfile.imp_right ?_⟩
  rintro ⟨c, hc, hcompiles⟩
  rw [← Option.isSome_iff_exists, lastCompile?, List.find?_isSome]
  exact ⟨c, List.mem_reverse.2 (hnew ▸ hc), decide_eq_true hcompiles⟩

end Serves
end Round

open Round (latestCompile?)

/-- Builds in one directory, the latest first. At first the directory holds no file, and between two
builds none comes in. -/
inductive Succession (dir : Path) : List Round → Prop
  | start {r : Round} (hr : r.Serves dir)
    (hempty : ∀ place, dir.place r.before.disk.here <+: place →
      r.before.disk.files.file? place = none) : Succession dir [r]
  | next {r g : Round} {rest : List Round} (h : Succession dir (g :: rest)) (hr : r.Serves dir)
    (hhere : r.before.disk.here = g.after.disk.here)
    (hfiles : ∀ place, dir.place r.before.disk.here <+: place →
      r.before.disk.files.file? place ≠ none → g.after.disk.files.file? place ≠ none) :
    Succession dir (r :: g :: rest)

namespace Succession
variable {r g : Round} {rest rounds : List Round} {place : Place}

theorem serves (h : Succession dir rounds) : ∀ g ∈ rounds, g.Serves dir := by
  induction h with
  | start hr => exact List.forall_mem_singleton.2 hr
  | next _ hr _ _ ih => exact List.forall_mem_cons.2 ⟨hr, ih⟩

section
variable (hplain : dir.Plain) (hobject : ∀ here, (object.place here).EndsIn 'o')
include hplain hobject

theorem here_eq (h : Succession dir (r :: rest)) :
    ∀ g ∈ rest, g.before.disk.here = r.before.disk.here := by
  generalize hrounds : r :: rest = rounds at h
  induction h generalizing r rest with
  | start =>
    cases hrounds
    exact List.forall_mem_nil _
  | @next r g rest h _ hhere _ ih =>
    cases hrounds
    obtain ⟨hsame, -⟩ := (h.serves g List.mem_cons_self).step hplain hobject
    rw [hhere, hsame]
    exact List.forall_mem_cons.2 ⟨rfl, ih rfl⟩

/-- The half that has ordered the last command for an object of a half by the same name. -/
private theorem exists_orders (h : Succession dir (r :: rest)) {half : Half}
    (hhalf : half ∈ r.workshop.halves)
    (hbelow : half.directory.place r.before.disk.here <+: object.place r.before.disk.here)
    {c : Command}
    (hlatest : latestCompile? (object.place r.before.disk.here) (r :: rest) = some (g, c)) :
    g.Serves dir ∧ ∃ h ∈ g.workshop.halves, h.name = half.name ∧ h.Regular ∧
      ∃ object, h.Orders object c := by
  obtain ⟨hg, hc, hcompiles⟩ := Round.latestCompile?_eq_some hlatest
  have hr := h.serves r List.mem_cons_self
  have hgr := h.serves g hg
  have hhere : g.before.disk.here = r.before.disk.here := by
    rcases List.mem_cons.1 hg with rfl | hg
    · rfl
    · exact h.here_eq hplain hobject g hg
  rw [hhere] at hcompiles
  obtain ⟨-, horders, -⟩ := hgr.step hplain hobject
  obtain ⟨h', hh', object', hplace, ho⟩ := horders c hc _ _ (hobject _) hcompiles
  have hregular := (hgr.regular hplain).of_mem_halves hh'
  refine ⟨hgr, h', hh', ?_, hregular, object', ho⟩
  refine Half.name_eq_of_below hregular.name ((hr.regular hplain).of_mem_halves hhalf).name ?_
    (hplace ▸ ho.below hregular _) hbelow
  rw [hgr.buildDir_of_mem hh', hr.buildDir_of_mem hhalf]

/-- An object that is a file has been compiled by one of the builds. The latest build has compiled it, or
it was there before. -/
private theorem isSome_latestCompile? (h : Succession dir (r :: rest))
    (hbelow : dir.place r.before.disk.here <+: object.place r.before.disk.here)
    (hfile : r.after.disk.files.file? (object.place r.before.disk.here) ≠ none) :
    (latestCompile? (object.place r.before.disk.here) (r :: rest)).isSome = true := by
  generalize hrounds : r :: rest = rounds at h
  induction h generalizing r rest with
  | start hr hempty =>
    cases hrounds
    obtain ⟨-, -, hsame | ⟨c, hc⟩⟩ := hr.step hplain hobject
    · exact absurd (hsame.trans (hempty _ hbelow)) hfile
    · rw [Round.latestCompile?_of_last hc]
      rfl
  | @next r g rest h hr hhere hfiles ih =>
    cases hrounds
    obtain ⟨-, -, hsame | ⟨c, hc⟩⟩ := hr.step hplain hobject
    · rw [hsame] at hfile
      have hearlier := hfiles _ hbelow hfile
      obtain ⟨hkept, -⟩ := (h.serves g List.mem_cons_self).step hplain hobject
      rw [hhere, hkept] at hbelow hearlier ⊢
      exact Round.isSome_latestCompile?_cons (ih hbelow hearlier rfl)
    · rw [Round.latestCompile?_of_last hc]
      rfl

omit hobject in
/-- In a build that has succeeded with honest tools, each object that is no directory has been compiled
by this build or an earlier one. The last command for an object of the loader defines the feature of
loaders. The last command for an object of the application defines the feature of applications if its
own build was split, and otherwise only if that build gave the feature to its application in another
way. -/
theorem compiled_for_role (h : Succession dir (r :: rest)) (htools : r.before.tools.Honest)
    {result : BuildResult} {s : Workshop × World} (hok : r.run = .ok result s) {half : Half}
    (hhalf : half ∈ r.workshop.halves) {source archive : Path}
    (hmakes : half.Makes source object archive)
    (hfile : ¬ s.2.disk.files.IsDirectory (object.place r.before.disk.here)) :
    ∃ g c, latestCompile? (object.place r.before.disk.here) (r :: rest) = some (g, c) ∧
      (r.workshop.loader = some half → c.Defines "SPLIT_LOADER") ∧
      (half = r.workshop.application →
        (g.workshop.isSplit = true → c.Defines "SPLIT_APPLICATION") ∧
        (c.Defines "SPLIT_APPLICATION" → g.workshop.application.Gives "SPLIT_APPLICATION")) := by
  have hr := h.serves r List.mem_cons_self
  have hregular := (hr.regular hplain).of_mem_halves hhalf
  have hobject := hmakes.endsIn_object hregular
  have hbelow : half.directory.place r.before.disk.here <+: object.place r.before.disk.here := by
    obtain ⟨package, hp, -, objectDir, objects, hdir, hobjects, hmem⟩ := hmakes
    exact Half.below_object hregular hp hdir hobjects (List.of_mem_zip hmem).2 _
  have hdir : dir.place r.before.disk.here <+: object.place r.before.disk.here := by
    rw [(Half.directory_eq hregular.name).2, hr.buildDir_of_mem hhalf] at hbelow
    exact (List.prefix_append ..).trans hbelow
  have hthere := r.exists_object (hr.regular hplain) hr.grounded htools hhalf hmakes hok
  have hafter : r.after.disk = s.2.disk := by rw [Round.after, hok, leaves]
  obtain ⟨⟨g, c⟩, hlatest⟩ := Option.isSome_iff_exists.1
    (h.isSome_latestCompile? hplain hobject hdir (hafter ▸ FileTree.file?_ne_none hthere hfile))
  obtain ⟨hgr, h', hh', hname, hregular', object', ho⟩ :=
    h.exists_orders hplain hobject hhalf hbelow hlatest
  refine ⟨g, c, hlatest, fun hl => ho.defines (hgr.loader_feature hh' ?_), ?_⟩
  · rw [hname]
    exact (hr.liesIn.loader half hl).1
  · rintro rfl
    obtain rfl := hgr.eq_application hh' (hname.trans hr.liesIn.application.1)
    exact ⟨fun hsplit => ho.defines (hgr.application_feature hsplit), ho.gives hregular'⟩

end

/-- The example's target as a single image. -/
def singleTarget : Target :=
  { History.exampleTarget [History.examplePackage "p" "p.c"] with loader := none }

def singleWorkshop : Workshop :=
  .ofPlan singleTarget {
    board := History.exampleBoard
    compiler := ⟨.text "", [], []⟩
    application := ⟨.text "m", [History.examplePackage "p" "p.c"]⟩
    linkerScript := ⟨.relative, ["l"]⟩
    loader := none }

/-- A single image, in an empty directory. -/
def singleRound : Round := ⟨singleWorkshop, { History.exampleStart with tools := ⟨[], []⟩ }⟩

/-- The same application beside a loader. -/
def splitRound : Round :=
  ⟨History.exampleWorkshop [History.examplePackage "p" "p.c"], singleRound.after⟩

/-- The same build in the empty directory. -/
def splitFirst : Round := { splitRound with before := singleRound.before }

def applicationObject : Path := ⟨.relative, ["o", "app", "obj", "p", "p.o"]⟩

def loaderObject : Path := ⟨.relative, ["o", "loader", "obj", "q", "q.o"]⟩

private theorem splitRound_facts :
    (answer? splitRound.run).isSome = true ∧ splitRound.before.tools.rules.isEmpty = true ∧
      singleRound.before.disk.Grounded ∧ splitRound.before.disk.Grounded ∧
      (∀ p ∈ [applicationObject, loaderObject],
        ¬ (leaves splitRound.run).2.disk.files.IsDirectory (p.place splitRound.before.disk.here)) ∧
      (latestCompile? (applicationObject.place splitRound.before.disk.here)
        [splitRound, singleRound]).map (fun found => decide (found.2.Defines "SPLIT_APPLICATION")) =
          some false := by
  decide +kernel

private theorem splitFirst_facts :
    (answer? splitFirst.run).isSome = true ∧
      ¬ (leaves splitFirst.run).2.disk.files.IsDirectory
        (applicationObject.place splitFirst.before.disk.here) ∧
      (latestCompile? (applicationObject.place splitFirst.before.disk.here) [splitFirst]).map
        (fun found => found.1.workshop.isSplit) = some true := by
  decide +kernel

private theorem empty_singleRound {place : Place}
    (hbelow : History.exampleDir.place singleRound.before.disk.here <+: place) :
    singleRound.before.disk.files.file? place = none := by
  have hnone : ∀ place e, singleRound.before.disk.files.find? place = some e →
      ¬ History.exampleDir.place singleRound.before.disk.here <+: place :=
    FileTree.forall_find?_iff.2 (by decide)
  cases hfind : singleRound.before.disk.files.find? place with
  | none =>
    rw [FileTree.file?, hfind]
    rfl
  | some e => exact absurd hbelow (hnone place e hfind)

private theorem orderly_splitTarget :
    (History.exampleTarget [History.examplePackage "p" "p.c"]).Orderly History.exampleDir :=
  History.orderly_exampleTarget
    (List.forall_mem_singleton.2 (History.orderly_examplePackage (by decide)))

theorem exampleSuccession : Succession History.exampleDir [splitRound, singleRound] := by
  obtain ⟨-, -, hfirst, hsecond, -⟩ := splitRound_facts
  have hsingle : singleTarget.Orderly History.exampleDir :=
    { orderly_splitTarget with loader := by rintro _ ⟨⟩ }
  exact .next (.start ⟨⟨singleTarget, hsingle, .made rfl⟩, hfirst⟩ fun _ => empty_singleRound)
    ⟨⟨_, orderly_splitTarget, .made (History.ofTarget_exampleTarget _)⟩, hsecond⟩ rfl fun _ _ => id

private theorem splitFirst_succession : Succession History.exampleDir [splitFirst] := by
  obtain ⟨-, -, hgrounded, -⟩ := splitRound_facts
  exact .start ⟨⟨_, orderly_splitTarget, .made (History.ofTarget_exampleTarget _)⟩, hgrounded⟩
    fun _ => empty_singleRound

/-- The loader and its object in the example. -/
theorem exists_loader_splitRound : ∃ loader archive, splitRound.workshop.loader = some loader ∧
    loader ∈ splitRound.workshop.halves ∧
      loader.Makes ⟨.relative, ["q.c"]⟩ loaderObject archive := by
  refine ⟨_, ⟨.relative, ["o", "loader", "lib", "q.a"]⟩, rfl, List.mem_cons_self, ?_⟩
  exact ⟨History.examplePackage "q" "q.c", List.mem_cons_of_mem _ List.mem_cons_self, rfl,
    ⟨.relative, ["o", "loader", "obj", "q"]⟩, [loaderObject], rfl, rfl, List.mem_cons_self⟩

theorem makes_splitRound : splitRound.workshop.application.Makes ⟨.relative, ["p.c"]⟩
    applicationObject ⟨.relative, ["o", "app", "lib", "p.a"]⟩ :=
  ⟨History.examplePackage "p" "p.c", List.mem_cons_of_mem _ List.mem_cons_self, rfl,
    ⟨.relative, ["o", "app", "obj", "p"]⟩, [applicationObject], rfl, rfl, List.mem_cons_self⟩

/-- The loader of the example is compiled by the second build, as a loader. The application is compiled
as one when the first build is the split one. -/
theorem compiled_for_both_roles :
    (∃ result s g c, splitRound.run = .ok result s ∧
      latestCompile? (loaderObject.place splitRound.before.disk.here) [splitRound, singleRound] =
        some (g, c) ∧ c.Defines "SPLIT_LOADER") ∧
    ∃ result s g c, splitFirst.run = .ok result s ∧
      latestCompile? (applicationObject.place splitFirst.before.disk.here) [splitFirst] =
        some (g, c) ∧
      g.workshop.isSplit = true ∧ c.Defines "SPLIT_APPLICATION" ∧
      g.workshop.application.Gives "SPLIT_APPLICATION" := by
  constructor
  · obtain ⟨hanswer, hrules, -, -, hfiles, -⟩ := splitRound_facts
    obtain ⟨result, hresult⟩ := Option.isSome_iff_exists.1 hanswer
    have htools : splitRound.before.tools.Honest := by
      rw [Tools.Honest, List.isEmpty_iff.1 hrules]
      exact List.forall_mem_nil _
    obtain ⟨loader, archive, hloader, hmem, hmakes⟩ := exists_loader_splitRound
    have hok := eq_ok_of_answer? hresult
    have hfile := hfiles loaderObject (List.mem_cons_of_mem _ List.mem_cons_self)
    obtain ⟨g, c, hlatest, hdefines, -⟩ := compiled_for_role History.plain_exampleDir
      exampleSuccession htools hok hmem hmakes hfile
    exact ⟨result, _, g, c, hok, hlatest, hdefines hloader⟩
  · obtain ⟨hanswer, hfile, hsplit⟩ := splitFirst_facts
    obtain ⟨result, hresult⟩ := Option.isSome_iff_exists.1 hanswer
    have hok := eq_ok_of_answer? hresult
    obtain ⟨g, c, hlatest, -, happlication⟩ := compiled_for_role History.plain_exampleDir
      splitFirst_succession (List.forall_mem_nil _) hok
      (List.mem_cons_of_mem _ List.mem_cons_self) makes_splitRound hfile
    rw [hlatest] at hsplit
    have hsplit := Option.some.inj hsplit
    obtain ⟨hdefines, hgives⟩ := happlication rfl
    exact ⟨result, _, g, c, hok, hlatest, hsplit, hdefines hsplit, hgives (hdefines hsplit)⟩

/-- A build with a loader succeeds with an object of the application that was last compiled for a single
image: in a directory that was empty at first, with tools that succeed. -/
theorem single_object_reused :
    Succession History.exampleDir [splitRound, singleRound] ∧
      singleRound.before.tools.rules = [] ∧ splitRound.before.tools.rules = [] ∧
      splitRound.workshop.isSplit = true ∧ (∃ result s, splitRound.run = .ok result s) ∧
      splitRound.workshop.application.Makes ⟨.relative, ["p.c"]⟩ applicationObject
        ⟨.relative, ["o", "app", "lib", "p.a"]⟩ ∧
      ∃ g c, latestCompile? (applicationObject.place splitRound.before.disk.here)
        [splitRound, singleRound] = some (g, c) ∧ ¬ c.Defines "SPLIT_APPLICATION" := by
  obtain ⟨hanswer, hrules, -, -, -, hlatest⟩ := splitRound_facts
  obtain ⟨result, hresult⟩ := Option.isSome_iff_exists.1 hanswer
  obtain ⟨⟨g, c⟩, hfound, hdefines⟩ := Option.map_eq_some_iff.1 hlatest
  exact ⟨exampleSuccession, rfl, List.isEmpty_iff.1 hrules, rfl,
    ⟨result, _, eq_ok_of_answer? hresult⟩, makes_splitRound, g, c, hfound,
    of_decide_eq_false hdefines⟩

end Succession
end DualImage
