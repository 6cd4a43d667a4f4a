import DualImage.Proofs.Compiler.Repetition
import DualImage.Proofs.Half.Places

/-! A half that has just been built needs no more work: the packages after a package may make its
objects again, but then they make its archive again as well. -/
namespace DualImage
open Command (Builds)
variable {since : World}

namespace Half
variable {h : Half} {s s' : Half × World} {package other : Package} {objectDir objectDir' : Path}
  {objects objects' : List Path} {d d' : Disk}

/-- The objects and archives that a build of the half makes. -/
def outputs (h : Half) : List Path :=
  h.packages.flatMap fun p =>
    match h.objectDir p.name, h.archivePath p.name with
    | .ok objectDir, .ok archive =>
      ((objectPaths? p.sources objectDir).getD []).flatMap fun object => [object, archive]
    | _, _ => []

theorem mem_outputs_iff {p : Path} : p ∈ h.outputs ↔
    ∃ source object archive, h.Makes source object archive ∧ (p = object ∨ p = archive) := by
  constructor
  · intro hp
    obtain ⟨package, hpackage, hp⟩ := List.mem_flatMap.1 hp
    split at hp
    · next objectDir archive hdir hpath =>
      obtain ⟨object, ho, hp⟩ := List.mem_flatMap.1 hp
      cases hpaths : objectPaths? package.sources objectDir with
      | none =>
        rw [hpaths] at ho
        cases ho
      | some objects =>
        rw [hpaths] at ho
        obtain ⟨source, hmem⟩ := exists_source_of_objectPaths hpaths ho
        exact ⟨source, object, archive, ⟨package, hpackage, hpath, objectDir, objects, hdir, hpaths,
          hmem⟩, by simpa using hp⟩
    · cases hp
  · rintro ⟨source, object, archive, ⟨package, hpackage, hpath, objectDir, objects, hdir, hpaths, hmem⟩,
      hp⟩
    refine List.mem_flatMap.2 ⟨package, hpackage, ?_⟩
    rw [hdir, hpath]
    refine List.mem_flatMap.2 ⟨object, ?_, by simpa using hp⟩
    rw [hpaths]
    exact (List.of_mem_zip hmem).2

/-- A build of the package would find nothing to do: its objects are no older than its sources were
before, and its archive is as new as its objects. -/
structure Standing (h : Half) (since d : Disk) (package : Package) (objectDir : Path)
    (objects : List Path) : Prop where
  dir : h.objectDir package.name = .ok objectDir
  paths : objectPaths? package.sources objectDir = some objects
  directory : d.hasDirectory objectDir = true
  compiled : ∀ pair ∈ package.sources.zip objects, ∀ time, since.Dates pair.1 time →
    d.AsNew pair.2 time
  archived : objects ≠ [] →
    ∃ archive, h.archivePath package.name = .ok archive ∧ d.Current archive objects

/-- Which archives the half has does not matter. -/
theorem standing_of_archives_iff {archives : List (Text × Path)} :
    { h with archives }.Standing d d' package objectDir objects ↔
      h.Standing d d' package objectDir objects :=
  ⟨fun hs => ⟨hs.dir, hs.paths, hs.directory, hs.compiled, hs.archived⟩,
    fun hs => ⟨hs.dir, hs.paths, hs.directory, hs.compiled, hs.archived⟩⟩

/-- All packages of the half stand like this. -/
def Upheld (h : Half) (since d : Disk) : Prop :=
  ∀ package ∈ h.packages, ∃ objectDir objects, h.Standing since d package objectDir objects

/-- What the half makes for one of its packages. -/
private theorem makes_of_mem (hp : package ∈ h.packages)
    (hdir : h.objectDir package.name = .ok objectDir)
    (hpaths : objectPaths? package.sources objectDir = some objects) {object : Path}
    (ho : object ∈ objects) : ∃ source archive, (source, object) ∈ package.sources.zip objects ∧
      h.archivePath package.name = .ok archive ∧ h.Makes source object archive := by
  obtain ⟨archive, hpath⟩ := exists_archivePath hdir
  obtain ⟨source, hmem⟩ := exists_source_of_objectPaths hpaths ho
  exact ⟨source, archive, hmem, hpath, package, hp, hpath, objectDir, objects, hdir, hpaths, hmem⟩

section
variable (hh : s.1.Regular) (hu : Underway Builds since s.2)
include hh hu

/-- A package that has just been built stands. -/
private theorem standing_of_buildPackage (hp : package ∈ s.1.packages)
    (hsources : ∀ source ∈ package.sources, since.disk.HasFile source)
    (hr : buildPackage package s = .ok () s')
    (hfiles : ∀ p ∈ s.1.outputs, ¬ s'.2.disk.files.IsDirectory (p.place since.disk.here)) :
    ∃ objectDir objects, s.1.Standing since.disk s'.2.disk package objectDir objects := by
  obtain ⟨objectDir, objects, w, hdir, hcompile, hrest⟩ := buildPackage_eq_ok hr
  have hpaths := (Compiler.compile_steps hcompile).1
  have hcourse := course_progress Builds
  have hissues := hh.issues
  have hcommands := hissues.compile package hp objectDir objects hdir hpaths
  have hw := hu.next (hcourse.compile (fun objects' hobjects' _ hpair => hissues.compile package hp
    objectDir objects' hdir hobjects' _ (List.of_mem_zip hpair).2 _) hcompile)
  have hstep : Progress Builds w s'.2 := by
    split at hrest
    · exact hcourse.spoken _ _ hrest.2
    · obtain ⟨path, hpath, harchive, -⟩ := hrest
      exact hcourse.archive _ objects path (hh.plain_archivePath hpath)
        (fun tool htool => hissues.archive _ path tool hpath htool _) harchive
  have hfile : ∀ p ∈ s.1.outputs, ¬ w.disk.files.IsDirectory (p.place since.disk.here) :=
    fun p hp => hw.not_isDirectory hstep (hfiles p hp)
  have hcompiled : ∀ pair ∈ package.sources.zip objects, ∀ time, since.disk.Dates pair.1 time →
      w.disk.AsNew pair.2 time := by
    rintro ⟨source, object⟩ hmem time htime
    have ho := (List.of_mem_zip hmem).2
    refine hu.asNew_of_compile (fun o ho source command hcommand => ?_) hmem htime hcompile
      (hfile object ?_)
    · exact ⟨hcommands o ho source command hcommand,
        hh.output?_compile hp hdir hpaths ho hcommand⟩
    · obtain ⟨source', archive, -, -, hmakes⟩ := makes_of_mem hp hdir hpaths ho
      exact mem_outputs_iff.2 ⟨source', object, archive, hmakes, .inl rfl⟩
  have hadvances := (hw.step hstep).disk
  refine ⟨objectDir, objects, hdir, hpaths, ?_, fun pair hmem time htime => ?_, fun hsome => ?_⟩
  · exact hadvances.hasDirectory (hu.hasDirectory_of_compile hcommands hcompile)
  · refine hadvances.asNew (hcompiled pair hmem time htime) ?_
    exact Int.le_trans (hu.punctual.dates_le htime) hw.progressed.disk.clock
  · rw [if_neg hsome] at hrest
    obtain ⟨path, hpath, harchive, -⟩ := hrest
    obtain ⟨object, ho⟩ := List.exists_mem_of_ne_nil objects hsome
    obtain ⟨source, archive, -, hpath', hmakes⟩ := makes_of_mem hp hdir hpaths ho
    cases hpath.symm.trans hpath'
    refine ⟨path, hpath, hw.current_of_archive (hh.plain_archivePath hpath)
      (fun tool htool => hissues.archive _ path tool hpath htool _) (fun o ho => ?_) harchive
      (hfiles path (mem_outputs_iff.2 ⟨source, object, path, hmakes, .inr rfl⟩))⟩
    obtain ⟨source', -, hmem, -, -⟩ := makes_of_mem hp hdir hpaths ho
    obtain ⟨time, htime⟩ := hsources source' (List.of_mem_zip hmem).1
    obtain ⟨t, ht, -⟩ := hcompiled (source', o) hmem time htime
    exact ⟨t, ht⟩

/-- Building a package writes its objects and its archive. -/
private theorem advances_of_buildPackage (hp : package ∈ s.1.packages)
    (hdir : s.1.objectDir package.name = .ok objectDir)
    (hpaths : objectPaths? package.sources objectDir = some objects)
    (hr : Half.buildPackage package s = .ok () s') :
    Disk.Advances (fun place => place.IsRecord ∨ ∃ q, (q ∈ objects ∨
      s.1.archivePath package.name = .ok q) ∧ q.place since.disk.here = place) s.2.disk s'.2.disk := by
  have hcourse := course_progress fun c => ∀ q, c.output? = some q →
    q ∈ objects ∨ s.1.archivePath package.name = .ok q
  have hstep := (of_buildPackage_of hcourse ?compile ?archive hr).2
  case compile =>
    rintro dir os hdir' hpaths' ⟨source, o⟩ hpair command hcommand q hq
    cases hdir.symm.trans hdir'
    cases hpaths.symm.trans hpaths'
    have ho := (List.of_mem_zip hpair).2
    cases hq.symm.trans (hh.output?_compile hp hdir hpaths ho hcommand)
    exact .inl ho
  case archive =>
    intro dir os path _ _ hpath
    refine ⟨hh.plain_archivePath hpath, fun tool htool q hq => ?_⟩
    obtain ⟨before, -, rfl⟩ := Compiler.tool_eq_ok_iff.1 htool
    rw [Command.output?_ar] at hq
    cases hq
    have hback : Path.ofText path.toText = path := (hh.plain_archivePath hpath).readBack
    exact .inr (hback.symm ▸ hpath)
  obtain ⟨new, -, hnew, hdisk⟩ := (hstep hu.progressed.disk.grounded hu.honest_now).commands
  refine hdisk.imp fun place => Or.imp_right ?_
  rintro ⟨c, hc, q, hq, rfl⟩
  exact ⟨q, hnew c hc q hq, by rw [hu.here]⟩

/-- A package still stands after another one has been built. Objects that both make go into one
archive, which has been made again after them. -/
private theorem Standing.buildPackage
    (hnames : ¬ (Yields s.1.packages "" ∧ Yields s.1.packages "."))
    (hp : package ∈ s.1.packages) (hother : other ∈ s.1.packages)
    (hstanding : s.1.Standing since.disk s.2.disk package objectDir objects)
    (hr : Half.buildPackage other s = .ok () s')
    (hmade : s.1.Standing since.disk s'.2.disk other objectDir' objects') :
    s.1.Standing since.disk s'.2.disk package objectDir objects := by
  have hadvances := advances_of_buildPackage hh hu hother hmade.dir hmade.paths hr
  refine ⟨hstanding.dir, hstanding.paths, hadvances.hasDirectory hstanding.directory,
    fun pair hmem time htime => ?_, fun hsome => ?_⟩
  · refine hadvances.asNew (hstanding.compiled pair hmem time htime) ?_
    exact Int.le_trans (hu.punctual.dates_le htime) hu.progressed.disk.clock
  obtain ⟨archive, hpath, hcurrent⟩ := hstanding.archived hsome
  refine ⟨archive, hpath, hadvances.current hu.punctual_now hcurrent fun object ho hwritten => ?_⟩
  have hhere : s'.2.disk.here = since.disk.here := hadvances.here.trans hu.here
  obtain ⟨source, _, -, hpath₁, hmakes⟩ := makes_of_mem hp hstanding.dir hstanding.paths ho
  cases hpath.symm.trans hpath₁
  have hend := hmakes.endsIn_object hh since.disk.here
  rw [hu.here] at hwritten
  rcases hwritten with hrecord | ⟨q, hq | hq, hplace⟩
  · exact absurd hrecord (hend.not_isRecord rfl (by decide))
  · obtain ⟨source', _, -, hpath₂, hmakes'⟩ := makes_of_mem hother hmade.dir hmade.paths hq
    obtain ⟨archive', hpath₃, time', harchive', hobjects'⟩ := hmade.archived (List.ne_nil_of_mem hq)
    cases hpath₃.symm.trans hpath₂
    obtain ⟨t, ht, hle⟩ := hobjects' q hq
    obtain ⟨t', ht'⟩ := hadvances.hasFile (hcurrent.hasFile object (List.mem_cons_of_mem _ ho))
    obtain rfl := ht.eq_of_place ht' (by rw [hhere, hplace])
    refine ⟨t, ht', fun time htime => ?_⟩
    have harchives := hmakes'.archive_place since.disk.here hh hnames hmakes hplace
    rwa [htime.eq_of_place harchive' (by rw [hhere, harchives])]
  · have harchive := Path.endsIn_place (name_archivePath hq) (by decide) since.disk.here
    rw [hplace] at harchive
    exact absurd (hend.byte_eq harchive rfl rfl) (by decide)

omit hh hu in
private theorem standing_of_buildPackages {packages : List Package} (hh : s.1.Regular)
    (hu : Underway Builds since s.2) (hnames : ¬ (Yields s.1.packages "" ∧ Yields s.1.packages "."))
    (hsub : packages ⊆ s.1.packages)
    (hsources : ∀ p ∈ s.1.packages, ∀ source ∈ p.sources, since.disk.HasFile source)
    (hr : packages.forM Half.buildPackage s = .ok ⟨⟩ s')
    (hfiles : ∀ p ∈ s.1.outputs, ¬ s'.2.disk.files.IsDirectory (p.place since.disk.here))
    (hp : package ∈ s.1.packages)
    (hstanding : package ∈ packages ∨
      ∃ objectDir objects, s.1.Standing since.disk s.2.disk package objectDir objects) :
    ∃ objectDir objects, s.1.Standing since.disk s'.2.disk package objectDir objects := by
  have hcourse := course_progress Builds
  induction packages generalizing s with
  | nil =>
    cases hr
    exact hstanding.resolve_left List.not_mem_nil
  | cons first rest ih =>
    obtain ⟨hfirst, hrest⟩ := List.cons_subset.1 hsub
    obtain ⟨t, hbuild, hr⟩ := Action.forM_cons_eq_ok_iff.1 hr
    obtain ⟨⟨archives, hsame⟩, hstep⟩ := of_buildPackage hcourse hh.issues hfirst hbuild
    have ht : t.1.Regular := hsame ▸ hh.of_archives archives
    have hafter : Progress Builds t.2 s'.2 :=
      (of_buildPackages hcourse ht.issues (by rw [hsame]; exact hrest) hr).2
    have hut := hu.next hstep
    obtain ⟨dir, os, hmade⟩ := standing_of_buildPackage hh hu hfirst (hsources first hfirst) hbuild
      fun p hp => hut.not_isDirectory hafter (hfiles p hp)
    have hnow : package ∈ rest ∨
        ∃ objectDir objects, s.1.Standing since.disk t.2.disk package objectDir objects := by
      rcases hstanding with hmem | ⟨objectDir, objects, hstanding⟩
      · rcases List.mem_cons.1 hmem with rfl | hmem
        · exact .inr ⟨dir, os, hmade⟩
        · exact .inl hmem
      · exact .inr ⟨objectDir, objects,
          hstanding.buildPackage hh hu hnames hp hfirst hbuild hmade⟩
    have hgoal := ih ht hut (by rw [hsame]; exact hnames) (by rw [hsame]; exact hrest)
      (by rw [hsame]; exact hsources) hr (by rw [hsame]; exact hfiles) (by rw [hsame]; exact hp)
      (by rw [hsame]; simpa only [standing_of_archives_iff] using hnow)
    rw [hsame] at hgoal
    simpa only [standing_of_archives_iff] using hgoal

/-- All packages of a half stand when it has been built. -/
theorem upheld_of_build (hnames : ¬ (Yields s.1.packages "" ∧ Yields s.1.packages "."))
    (hsources : ∀ p ∈ s.1.packages, ∀ source ∈ p.sources, since.disk.HasFile source)
    (hr : Half.build s = .ok () s')
    (hfiles : ∀ p ∈ s.1.outputs, ¬ s'.2.disk.files.IsDirectory (p.place since.disk.here)) :
    s.1.Upheld since.disk s'.2.disk := by
  obtain ⟨_, _, hget, hr⟩ := Action.bind_eq_ok_iff.1 hr
  cases hget
  obtain ⟨_, t, hsay, hr⟩ := Action.bind_eq_ok_iff.1 hr
  obtain ⟨hsame, hsay⟩ := ofAction_eq_ok_iff.1 hsay
  have hut := hu.next ((course_progress Builds).say _ _ hsay)
  rw [← hsame] at hr hh hnames hsources hfiles ⊢
  exact fun package hp => standing_of_buildPackages hh hut hnames (List.Subset.refl _) hsources hr
    hfiles hp (.inl hp)

end

namespace Upheld
variable {before : Disk} (hu : h.Upheld before d)
include hu

/-- Packages keep standing while nothing is written that the half has made. -/
theorem leaving {S : Place → Prop} (hd : Disk.Leaving S d d')
    (hS : ∀ p ∈ h.outputs, S (p.place d.here)) : h.Upheld before d' := by
  intro package hp
  obtain ⟨objectDir, objects, hs⟩ := hu package hp
  have hmade : ∀ object ∈ objects, ∃ source archive, h.archivePath package.name = .ok archive ∧
      h.Makes source object archive := fun object ho => by
    obtain ⟨source, archive, -, hpath, hmakes⟩ := makes_of_mem hp hs.dir hs.paths ho
    exact ⟨source, archive, hpath, hmakes⟩
  have hobject : ∀ object ∈ objects, S (object.place d.here) := by
    intro object ho
    obtain ⟨source, archive, -, hmakes⟩ := hmade object ho
    exact hS object (mem_outputs_iff.2 ⟨source, object, archive, hmakes, .inl rfl⟩)
  refine ⟨objectDir, objects, hs.dir, hs.paths, hd.hasDirectory hs.directory,
    fun pair hmem time htime => ?_, fun hsome => ?_⟩
  · exact hd.asNew (hobject _ (List.of_mem_zip hmem).2) (hs.compiled pair hmem time htime)
  · obtain ⟨archive, hpath, hcurrent⟩ := hs.archived hsome
    refine ⟨archive, hpath, hd.current (List.forall_mem_cons.2 ⟨?_, hobject⟩) hcurrent⟩
    obtain ⟨object, ho⟩ := List.exists_mem_of_ne_nil objects hsome
    obtain ⟨source, archive', hpath', hmakes⟩ := hmade object ho
    cases hpath.symm.trans hpath'
    exact hS archive (mem_outputs_iff.2 ⟨source, object, archive, hmakes, .inr rfl⟩)

/-- Sources that are as they were may be looked at now. -/
theorem now (hsources : ∀ p ∈ h.packages, ∀ source ∈ p.sources, ∀ time,
    d.Dates source time → before.Dates source time) : h.Upheld d d := by
  intro package hp
  obtain ⟨objectDir, objects, hs⟩ := hu package hp
  refine ⟨objectDir, objects, hs.dir, hs.paths, hs.directory, fun pair hmem time htime => ?_,
    hs.archived⟩
  exact hs.compiled pair hmem time (hsources package hp _ (List.of_mem_zip hmem).1 time htime)

/-- The archives that a half has after its build are files that it has made. -/
theorem of_mem_stock {p : Path} (hp : p ∈ (h.stock h.packages).map (·.2)) :
    d.HasFile p ∧ p ∈ h.outputs := by
  obtain ⟨⟨name, path⟩, hentry, rfl⟩ := List.mem_map.1 hp
  obtain ⟨_, -, hentry⟩ := List.mem_filterMap.1 hentry
  obtain ⟨name', -, hentry⟩ := Option.bind_eq_some_iff.1 hentry
  split at hentry
  · next hyields =>
    cases hentry
    obtain ⟨package, hpackage, htext, hsources⟩ := hyields
    obtain ⟨objectDir, objects, hs⟩ := hu package hpackage
    have hsome : objects ≠ [] := fun hnone => hsources ((objectPaths?_eq_nil_iff hs.paths).1 hnone)
    obtain ⟨archive, hpath, hcurrent⟩ := hs.archived hsome
    obtain ⟨name'', htext', rfl⟩ := archivePath_eq_ok_iff.1 hpath
    cases htext.symm.trans htext'
    obtain ⟨object, ho⟩ := List.exists_mem_of_ne_nil objects hsome
    obtain ⟨source, archive, -, hpath', hmakes⟩ := makes_of_mem hpackage hs.dir hs.paths ho
    cases hpath.symm.trans hpath'
    exact ⟨hcurrent.hasFile _ List.mem_cons_self,
      mem_outputs_iff.2 ⟨source, object, _, hmakes, .inr rfl⟩⟩
  · cases hentry

end Upheld

private theorem ofAction_of_ok {α : Type} {a : Action α} {x : α} {w w' : World} (ha : a w = .ok x w') :
    HalfAction.ofAction a (h, w) = .ok x (h, w') :=
  ofAction_eq_ok_iff.2 ⟨rfl, ha⟩

/-- What was built can be built again without a command when it stands. -/
private theorem buildPackage_of_standing {h' : Half} {w w' v : World}
    (hr : buildPackage package (h, w) = .ok () (h', w'))
    (hs : h.Standing v.disk v.disk package objectDir objects)
    (hsources : ∀ source ∈ package.sources, v.disk.HasFile source) :
    ∃ v', buildPackage package (h, v) = .ok () (h', v') ∧ Spoken v v' := by
  obtain ⟨dir, os, w₁, hdir, hcompiled, hrest⟩ := buildPackage_eq_ok hr
  cases hs.dir.symm.trans hdir
  cases hs.paths.symm.trans (Compiler.compile_steps hcompiled).1
  have hcompile : h.compiler.compile package objectDir h.features v = .ok objects v := by
    refine Compiler.compile_of_fresh hs.paths hs.directory fun pair hmem => ?_
    obtain ⟨time, htime⟩ := hsources _ (List.of_mem_zip hmem).1
    obtain ⟨t, ht, hle⟩ := hs.compiled pair hmem time htime
    exact Disk.Current.fresh ⟨t, ht, List.forall_mem_singleton.2 ⟨time, htime, hle⟩⟩
  have hlift {α : Type} {r : Except Failure α} {x : α} (h : r = .ok x) :
      World.lift r v = .ok x v := World.lift_eq_ok_iff.2 ⟨h, rfl⟩
  have hstart (rest : List Path → HalfAction Unit) : (do
      let objectDir ← HalfAction.ofAction (World.lift (h.objectDir package.name))
      let objects ← HalfAction.ofAction (h.compiler.compile package objectDir h.features)
      rest objects) (h, v) = rest objects (h, v) :=
    (Action.bind_of_ok (ofAction_of_ok (hlift hdir))).trans
      (Action.bind_of_ok (ofAction_of_ok hcompile))
  cases objects with
  | nil =>
    obtain ⟨hsame, -⟩ := hrest
    obtain ⟨v', hspoken, hsay⟩ : Answers Spoken (World.say Console.verbose
        ("Package " ++ (package.name.text?.getD "") ++ " has no objects")) (.ok ()) v := .say _ _
    refine ⟨v', ?_, hspoken⟩
    rw [show h' = h from hsame]
    exact (hstart _).trans (ofAction_of_ok hsay)
  | cons object rest =>
    obtain ⟨path, hpath, -, hsame⟩ := hrest
    obtain ⟨archive, hpath', hcurrent⟩ := hs.archived (List.cons_ne_nil _ _)
    cases hpath.symm.trans hpath'
    have hparent : v.disk.hasDirectory path.parent = true := by
      refine (hcurrent.hasFile path List.mem_cons_self).hasDirectory_parent fun hnone => ?_
      have hname := name_archivePath hpath
      rw [Path.name, hnone] at hname
      cases hname
    have harchive := Compiler.archive_of_fresh (c := h.compiler) hparent hcurrent.fresh
    refine ⟨v, ?_, refl_of Spoken v⟩
    rw [show h' = _ from hsame]
    refine (hstart _).trans ?_
    exact Action.bind_of_ok (ofAction_of_ok ((Action.bind_of_ok (hlift hpath)).trans harchive))

private theorem buildPackages_of_standing {packages : List Package} {h' : Half} {w w' v : World}
    (hr : packages.forM buildPackage (h, w) = .ok ⟨⟩ (h', w'))
    (hs : ∀ package ∈ packages, ∃ objectDir objects,
      h.Standing v.disk v.disk package objectDir objects)
    (hsources : ∀ p ∈ packages, ∀ source ∈ p.sources, v.disk.HasFile source) :
    ∃ v', packages.forM buildPackage (h, v) = .ok ⟨⟩ (h', v') ∧ Spoken v v' := by
  induction packages generalizing h w v with
  | nil =>
    cases hr
    exact ⟨v, rfl, refl_of Spoken v⟩
  | cons package rest ih =>
    obtain ⟨⟨h₁, w₁⟩, hfirst, hr⟩ := Action.forM_cons_eq_ok_iff.1 hr
    obtain ⟨⟨objectDir, objects, hpackage⟩, hrest⟩ := List.forall_mem_cons.1 hs
    obtain ⟨hsource, hsources⟩ := List.forall_mem_cons.1 hsources
    obtain ⟨v₁, hbuilt, hspoken⟩ := buildPackage_of_standing hfirst hpackage hsource
    obtain ⟨⟨archives, hsame⟩, -⟩ := lookup_buildPackage hfirst
    rw [← hspoken.unmoved.disk] at hrest hsources
    obtain ⟨v', hlater, hspoken'⟩ := ih hr (by
      rw [show h₁ = _ from hsame]
      simpa only [standing_of_archives_iff] using hrest) hsources
    exact ⟨v', Action.forM_cons_eq_ok_iff.2 ⟨_, hbuilt, hlater⟩, trans_of Spoken hspoken hspoken'⟩

/-- A build of the half finds nothing to do: its packages stand, and their sources are there. -/
structure Rests (h : Half) (d : Disk) : Prop where
  upheld : h.Upheld d d
  sources : ∀ p ∈ h.packages, ∀ source ∈ p.sources, d.HasFile source

/-- A half that was built is built again without a command when it finds nothing to do. -/
theorem Rests.build {h' : Half} {w w' v : World} (hs : h.Rests v.disk)
    (hr : Half.build (h, w) = .ok () (h', w')) :
    ∃ v', Half.build (h, v) = .ok () (h', v') ∧ Spoken v v' := by
  obtain ⟨_, _, hget, hr⟩ := Action.bind_eq_ok_iff.1 hr
  cases hget
  obtain ⟨_, ⟨h₁, w₁⟩, hsay, hr⟩ := Action.bind_eq_ok_iff.1 hr
  obtain ⟨hsame, -⟩ := ofAction_eq_ok_iff.1 hsay
  cases hsame
  obtain ⟨v₁, hspoken, hsaid⟩ : Answers Spoken (World.say Console.normal
      ("Building " ++ h.name ++ " (" ++ toString h.packages.length ++ " packages)")) (.ok ()) v :=
    .say _ _
  rw [← hspoken.unmoved.disk] at hs
  obtain ⟨v', hbuilt, hspoken'⟩ := buildPackages_of_standing hr hs.upheld hs.sources
  refine ⟨v', Action.bind_eq_ok_iff.2 ⟨_, _, rfl, ?_⟩, trans_of Spoken hspoken hspoken'⟩
  exact Action.bind_eq_ok_iff.2 ⟨_, _, ofAction_of_ok hsaid, hbuilt⟩

end Half
end DualImage
