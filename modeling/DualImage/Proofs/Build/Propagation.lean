import DualImage.Proofs.Build.Course
import DualImage.Proofs.Build.Division
import DualImage.Proofs.Half.Newness

/-! How a changed source reaches every binary that it belongs to: through its object and its archive
to the link of its half, and in a split image through the loader image to the application. -/
namespace DualImage
open Command (Builds Edits)

namespace Command

/-- Commands of a build: they build the halves or edit the loader image. -/
def Planned (c : Command) : Prop := c.Builds ∨ c.Edits

/-- The command copies a binary and keeps the symbols of a list global. -/
def Copies (binary image : Path) (c : Command) : Prop :=
  ∃ tool list : Text, tool.endsWith "objcopy" = true ∧
    c = [tool, "--keep-global-symbols=" ++ list, binary.toText, image.toText]

/-- The command renames the boundary symbols of a binary. -/
def RenamesBoundaries (image : Path) (c : Command) : Prop :=
  ∃ tool : Text, tool.endsWith "objcopy" = true ∧
    c = tool :: (Compiler.renamings LoaderImage.boundarySymbols LoaderImage.loaderEnding ++
      [image.toText])

end Command

open Command (Planned Copies RenamesBoundaries)

namespace Build
variable {plan : Target.Plan} {l : Target.LoaderPlan} {since : World} {source object archive : Path}

section
variable {s s' : Half × World} (hh : s.1.Regular) (hu : Underway Builds since s.2)
  (hold : since.disk.Outdated source object) (hmakes : s.1.Makes source object archive)
include hh hu hold hmakes

/-- A half that is built and linked with a changed source. -/
private theorem hasNew_of_link {h' : Half} {w w' : World} (hbuild : Half.build s = .ok () (h', w))
    {script binary : Path} (hlink : h'.link script [] w = .ok binary w')
    (hfiles : ∀ p ∈ [archive, s.1.binary], ¬ w'.disk.files.IsDirectory (p.place since.disk.here)) :
    (∀ p ∈ [object, archive, s.1.binary], since.disk.HasNew w'.disk (p.place since.disk.here)) ∧
      Underway Builds since w' := by
  obtain ⟨⟨archives, rfl⟩, hw⟩ := Half.underway_of_build hh hu hbuild
  have hregular := hh.of_archives archives
  have hlinked := Half.ensures_link (course_progress Builds) hregular.issues script [] hlink
  rw [List.forall_mem_cons, List.forall_mem_singleton] at hfiles
  obtain ⟨harchiveFile, hbinaryFile⟩ := hfiles
  obtain ⟨hobject, harchive⟩ := Half.hasNew_of_build hh hu hold hmakes hbuild
    (hw.not_isDirectory hlinked harchiveFile)
  have hmem := List.mem_append_left ([] : List Path) (hmakes.mem_shelf hbuild)
  have hbinary := Half.hasNew_of_link hregular hw (fun _ => id) hmem harchive hlink hbinaryFile
  refine ⟨?_, hw.next hlinked⟩
  simp only [List.forall_mem_cons]
  exact ⟨hw.hasNew hlinked hobject, hw.hasNew hlinked harchive, hbinary, List.forall_mem_nil _⟩

/-- The single image of a changed source. -/
private theorem hasNew_of_single {result : BuildResult} (hr : single plan s = .ok result s')
    (hfiles : ∀ p ∈ [archive, s.1.binary],
      ¬ s'.2.disk.files.IsDirectory (p.place since.disk.here)) :
    (∀ p ∈ [object, archive, s.1.binary], since.disk.HasNew s'.2.disk (p.place since.disk.here)) ∧
      Underway Builds since s'.2 := by
  obtain ⟨w₁, w₂, hbuild, hlink, hsay⟩ := single_steps hr
  rw [hsay.unmoved.disk] at hfiles ⊢
  obtain ⟨hnew, hw⟩ := hasNew_of_link hh hu hold hmakes hbuild hlink hfiles
  exact ⟨hnew, hw.next ((course_progress Builds).spoken _ _ hsay)⟩

/-- The loader of a changed source. -/
private theorem hasNew_of_buildLoader {symbols linked : SymbolTable}
    (hr : buildLoader plan s = .ok (symbols, linked) s')
    (hfiles : ∀ p ∈ [archive, s.1.binary],
      ¬ s'.2.disk.files.IsDirectory (p.place since.disk.here)) :
    (∀ p ∈ [object, archive, s.1.binary], since.disk.HasNew s'.2.disk (p.place since.disk.here)) ∧
      archive ∈ s'.1.shelf.map (·.2) := by
  obtain ⟨w₁, w₂, w₃, hbuild, ⟨binary, hlink⟩, hextract, hread⟩ := buildLoader_steps hr
  have hw₃ := ((s'.1.answers_extractSymbols w₂).of_ok hextract).2
  have hs' := ((s'.1.answers_readBinary w₃).of_ok hread).2
  rw [hs'.unmoved.disk, hw₃.unmoved.disk] at hfiles ⊢
  exact ⟨(hasNew_of_link hh hu hold hmakes hbuild hlink hfiles).1, hmakes.mem_shelf hbuild⟩

/-- The application of a changed source, before its link. -/
private theorem hasNew_of_buildApplication {symbols : SymbolTable}
    (hr : buildApplication s = .ok symbols s')
    (hfile : ¬ s'.2.disk.files.IsDirectory (archive.place since.disk.here)) :
    (∀ p ∈ [object, archive], since.disk.HasNew s'.2.disk (p.place since.disk.here)) ∧
      archive ∈ s'.1.shelf.map (·.2) := by
  obtain ⟨w, hbuild, hextract⟩ := buildApplication_steps hr
  rw [((s'.1.answers_extractSymbols w).of_ok hextract).2.unmoved.disk] at hfile ⊢
  obtain ⟨hobject, harchive⟩ := Half.hasNew_of_build hh hu hold hmakes hbuild hfile
  refine ⟨?_, hmakes.mem_shelf hbuild⟩
  simp only [List.forall_mem_cons]
  exact ⟨hobject, harchive, List.forall_mem_nil _⟩

end

section
variable {loader h : Half} {x : Extraction} {s s' : Workshop × World}

/-- Both halves of a changed source in one of them. The archive of the source is among those that the
loader image depends on. -/
private theorem hasNew_of_halves (hl : loader.Regular) (ha : s.1.application.Regular)
    (hu : Underway Builds since s.2) (hold : since.disk.Outdated source object)
    (hh : h = loader ∨ h = s.1.application) (hmakes : h.Makes source object archive)
    (hr : halves plan loader s = .ok x s')
    (hfiles : ∀ p ∈ [archive, h.binary], ¬ s'.2.disk.files.IsDirectory (p.place since.disk.here)) :
    (∀ p ∈ [object, archive], since.disk.HasNew s'.2.disk (p.place since.disk.here)) ∧
      (h = s.1.application ∨ since.disk.HasNew s'.2.disk (h.binary.place since.disk.here)) ∧
      archive ∈ x.inputs := by
  obtain ⟨-, w, hbuilt, happlied⟩ := halves_steps hr
  have hcourse := course_progress Builds
  have hw := hu.next (of_buildLoader hcourse hl.issues hbuilt).2
  have hstep : Progress Builds w s'.2 := (of_buildApplication hcourse ha.issues happlied).2
  have hinputs : x.inputs =
      x.loader.binary :: (x.loader.shelf.map (·.2) ++ x.application.shelf.map (·.2)) := by
    rw [Extraction.inputs, Extraction.shelf, List.map_append]
  rw [hinputs]
  rcases hh with rfl | rfl
  · obtain ⟨hnew, hmem⟩ := hasNew_of_buildLoader hl hu hold hmakes hbuilt
      fun p hp => hw.not_isDirectory hstep (hfiles p hp)
    simp only [List.forall_mem_cons] at hnew ⊢
    obtain ⟨hobject, harchive, hbinary, hnone⟩ := hnew
    exact ⟨⟨hw.hasNew hstep hobject, hw.hasNew hstep harchive, List.forall_mem_nil _⟩,
      .inr (hw.hasNew hstep hbinary), List.mem_cons_of_mem _ (List.mem_append_left _ hmem)⟩
  · obtain ⟨hnew, hmem⟩ := hasNew_of_buildApplication (s := (s.1.application, w)) ha hw hold hmakes
      happlied (hfiles archive List.mem_cons_self)
    exact ⟨hnew, .inl rfl, List.mem_cons_of_mem _ (List.mem_append_right _ hmem)⟩

/-- Building the halves and settling what they share keeps them regular, and keeps their paths. -/
theorem regular_of_settle {j : Settlement} {t : Workshop × World} (hl : loader.Regular)
    (ha : s.1.application.Regular) (hhalves : halves plan loader s = .ok x s')
    (hsettle : settle plan l x s' = .ok j t) :
    (∃ archives, x.loader = { loader with archives }) ∧ x.loader.Regular ∧
      j.application.Regular ∧ j.application.binary = s.1.application.binary := by
  obtain ⟨⟨archives, hx⟩, ⟨archives', hx'⟩, -⟩ :=
    of_halves (course_progress Builds) hl.issues ha.issues hhalves
  obtain ⟨-, hremoved, -⟩ := settle_steps hsettle
  rw [(halves_steps hhalves).1] at hremoved
  rw [Half.removePackages_eq_ok hremoved, hx']
  refine ⟨⟨archives, hx⟩, hx ▸ hl.of_archives archives, ?_, rfl⟩
  exact (ha.of_archives archives').of_packages (List.filter_subset_self _)

end

section
variable {image : Path} (hplain : image.Plain) (hname : image.name = "loader_rom.elf")
include hplain

theorem output?_edit {c : Compiler} {tool : Text} (htool : c.tool "objcopy" = .ok tool)
    (words : List Text) : Command.output? (tool :: (words ++ [image.toText])) = some image := by
  obtain ⟨before, -, rfl⟩ := Compiler.tool_eq_ok_iff.1 htool
  rw [Command.output?_objcopy, ← List.cons_append, List.getLast?_concat]
  exact congrArg some hplain.readBack

include hname

theorem planned_edit {c : Compiler} (tool : Text) (words : List Text)
    (htool : c.tool "objcopy" = .ok tool) : Planned (tool :: (words ++ [image.toText])) := by
  refine .inr fun q hq => ?_
  rw [output?_edit hplain htool] at hq
  cases hq
  exact hname

/-- Making the loader image copies the binary and renames its boundaries. -/
private theorem hasNew_of_loaderImage {c : Compiler} {binary : Path}
    {loader application linked exported : SymbolTable} {w w' : World}
    (hu : Underway Planned since w)
    (hr : LoaderImage.build c binary image loader application linked w = .ok exported w')
    (hfile : ¬ w'.disk.files.IsDirectory (image.place since.disk.here)) :
    since.disk.HasNew w'.disk (image.place since.disk.here) ∧
      World.Ran (Copies binary image) since w' ∧ World.Ran (RenamesBoundaries image) since w' := by
  have hcourse := course_progress Planned
  obtain ⟨w₁, w₂, w₃, p, hexports, hsaid, hcopy, hrename⟩ := build_steps hr
  have hspoken := trans_of Spoken
    ((LoaderImage.answers_exports loader application linked w).of_ok hexports).2 hsaid
  have hu₂ := hu.next (hcourse.spoken _ _ hspoken)
  obtain ⟨list, b, v, tool, shown, hlist, hwrite, htool, hrun⟩ :=
    Compiler.copyKeeping_steps hcopy
  obtain ⟨tool', shown', htool', hrun'⟩ := Compiler.renameSymbols_steps hrename
  have hv := hu₂.next (hcourse.record _ _ _ _ (by simp) hlist hwrite)
  have hcopied := hv.ran_of_run (P := Copies binary image)
    ⟨tool, list.toText, Compiler.endsWith_of_tool htool, rfl⟩ hrun
  have hw₃ := hu₂.next (hcourse.copyKeeping (planned_edit hplain hname) hcopy)
  have hstep := hcourse.run _ (planned_edit hplain hname _ _ htool') hrun'
  exact ⟨hw₃.hasNew_of_run (output?_edit hplain htool' _) hrun' hfile,
    (hw₃.step hstep).ran hcopied,
    hw₃.ran_of_run ⟨tool', Compiler.endsWith_of_tool htool', rfl⟩ hrun'⟩

end

section
variable {x : Extraction} {j : Settlement} {s s' : Workshop × World} (hl : x.loader.Regular)
include hl

theorem progress_conclude (ha : j.application.Regular) {result : BuildResult}
    (hr : conclude l x j s = .ok result s') : Progress Planned s.2 s'.2 :=
  of_conclude (course_progress Planned) (hl.issues.imp fun _ => .inl) (ha.issues.imp fun _ => .inl) hr

/-- A new loader image has the application linked against it. -/
private theorem hasNew_of_conclude (hu : Underway Planned since s.2) (ha : j.application.Regular)
    (hnew : since.disk.HasNew s.2.disk (x.loader.loaderImage.place since.disk.here))
    {result : BuildResult} (hr : conclude l x j s = .ok result s')
    (hfile : ¬ s'.2.disk.files.IsDirectory (j.application.binary.place since.disk.here)) :
    since.disk.HasNew s'.2.disk (j.application.binary.place since.disk.here) := by
  have hcourse := course_progress Planned
  obtain ⟨-, -, -, -, -, w, hlink, w', hreport, hsaid⟩ := conclude_steps hr
  have hissues : j.application.Issues Planned Path.Plain := ha.issues.imp fun _ => .inl
  have hw := hu.next (Half.ensures_link hcourse hissues _ _ hlink)
  have hreported := ensures_reportDifferences hcourse (hl.issues.imp fun _ => .inl) hissues hreport
  rw [hsaid.unmoved.disk] at hfile ⊢
  have himage := List.mem_append_right (j.application.shelf.map (·.2))
    (List.mem_singleton_self x.loader.loaderImage)
  exact hw.hasNew hreported (Half.hasNew_of_link ha hu (fun _ => .inl) himage hnew hlink
    (hw.not_isDirectory hreported hfile))

variable (hname : x.loader.name = "loader")
include hname

theorem progress_settle (hr : settle plan l x s = .ok j s') : Progress Planned s.2 s'.2 :=
  of_settle (course_progress Planned) (hl.issues.imp fun _ => .inl)
    (planned_edit hl.plain_loaderImage (Half.name_loaderImage hname)) hr

/-- A new archive has the loader image made anew. -/
private theorem hasNew_of_settle (hu : Underway Builds since s.2) (harchive : archive ∈ x.inputs)
    (hnew : since.disk.HasNew s.2.disk (archive.place since.disk.here))
    (hr : settle plan l x s = .ok j s')
    (hfile : ¬ s'.2.disk.files.IsDirectory (x.loader.loaderImage.place since.disk.here)) :
    since.disk.HasNew s'.2.disk (x.loader.loaderImage.place since.disk.here) ∧
      World.Ran (Copies x.loader.binary x.loader.loaderImage) since s'.2 ∧
      World.Ran (RenamesBoundaries x.loader.loaderImage) since s'.2 := by
  have hplain := hl.plain_loaderImage
  have himage := Half.name_loaderImage hname
  obtain ⟨-, -, -, w, hreconcile, hsaid⟩ := settle_steps hr
  obtain ⟨w₁, hstale, hrest⟩ := reconcile_steps hreconcile
  cases hregenerated : j.regenerated with
  | true =>
    rw [hregenerated] at hrest
    obtain ⟨console, hsame⟩ := hsaid
    rw [hsame] at hfile ⊢
    have hchecked := (course_progress Builds).spoken _ _ (World.isStale_eq_ok hstale)
    have hw₁ : Underway Planned since w₁ := (hu.next hchecked).imp fun _ => .inl
    rw [if_pos rfl] at hrest
    have hmade := hasNew_of_loaderImage hplain himage hw₁ hrest hfile
    exact hmade
  | false =>
    -- Only editing writes the loader image, and nothing has been edited yet.
    rw [hregenerated] at hstale hrest
    obtain ⟨rfl, hfresh⟩ := World.isStale_eq_false_iff.1 hstale
    obtain ⟨w₂, hspoken, hread⟩ := hrest
    have hlisted := ((LoaderImage.answers_readExports _ _ w₂).of_ok hread).2
    rw [hsaid.unmoved.disk, hlisted.unmoved.disk, hspoken.unmoved.disk] at hfile
    have hearly := hu.hasNew_of_fresh hfresh harchive hnew hfile
    have hend : (x.loader.loaderImage.place since.disk.here).EndsIn 'f' :=
      Path.endsIn_place (by rw [himage]; decide) (by decide) _
    have hrecord := hend.not_isRecord rfl (by decide)
    obtain ⟨_, -, c, -, hbuilds, hwrites⟩ := hu.exists_writes hearly hrecord
    exact absurd (Path.bears_place himage (by decide) _) (hbuilds.not_bears hwrites hend)

section
variable {t : Workshop × World} {result : BuildResult} (ha : j.application.Regular)
  (hsettle : settle plan l x s = .ok j t) (hconclude : conclude l x j t = .ok result s')
include ha hsettle hconclude

private theorem progress_finish : Progress Planned s.2 s'.2 :=
  trans_of (Progress Planned) (progress_settle hl hname hsettle) (progress_conclude hl ha hconclude)

/-- A new archive has the loader image made anew, and then the application linked. -/
private theorem hasNew_of_finish (hu : Underway Builds since s.2) (harchive : archive ∈ x.inputs)
    (hnew : since.disk.HasNew s.2.disk (archive.place since.disk.here))
    (hfiles : ∀ p ∈ [x.loader.loaderImage, j.application.binary],
      ¬ s'.2.disk.files.IsDirectory (p.place since.disk.here)) :
    since.disk.HasNew s'.2.disk (j.application.binary.place since.disk.here) ∧
      World.Ran (Copies x.loader.binary x.loader.loaderImage) since s'.2 ∧
      World.Ran (RenamesBoundaries x.loader.loaderImage) since s'.2 := by
  rw [List.forall_mem_cons, List.forall_mem_singleton] at hfiles
  obtain ⟨himageFile, hbinaryFile⟩ := hfiles
  have hconcluded := progress_conclude hl ha hconclude
  have ht : Underway Planned since t.2 :=
    (hu.imp fun _ => .inl).next (progress_settle hl hname hsettle)
  obtain ⟨himage, hcopied, hrenamed⟩ := hasNew_of_settle hl hname hu harchive hnew hsettle
    (ht.not_isDirectory hconcluded himageFile)
  have hran := ht.step hconcluded
  exact ⟨hasNew_of_conclude hl ht ha himage hconclude hbinaryFile, hran.ran hcopied,
    hran.ran hrenamed⟩

end

end

end Build

namespace Workshop

/-- The halves that a build of the workshop builds. -/
def halves (workshop : Workshop) : List Half :=
  if workshop.isSplit then workshop.loader.toList ++ [workshop.application]
  else [workshop.application]

/-- The binaries of the halves, and the loader image. -/
def binaries (workshop : Workshop) : List Path :=
  workshop.application.binary :: workshop.loader.toList.flatMap fun l => [l.binary, l.loaderImage]

variable {workshop : Workshop} {h loader : Half}

theorem mem_halves_of_single (h' : workshop.isSplit = false) :
    h ∈ workshop.halves ↔ h = workshop.application := by
  simp [halves, h']

theorem mem_halves_of_split (h' : workshop.isSplit = true) (hloader : workshop.loader = some loader) :
    h ∈ workshop.halves ↔ h = loader ∨ h = workshop.application := by
  simp [halves, h', hloader]

theorem mem_binaries (hloader : workshop.loader = some loader) :
    loader.binary ∈ workshop.binaries ∧ loader.loaderImage ∈ workshop.binaries := by
  simp [binaries, hloader]

theorem application_mem_binaries (workshop : Workshop) :
    workshop.application.binary ∈ workshop.binaries :=
  List.mem_cons_self

/-- Both halves are regular. -/
structure Regular (workshop : Workshop) : Prop where
  application : workshop.application.Regular
  loader : ∀ l, workshop.loader = some l → l.Regular ∧ l.name = "loader"

end Workshop

/-- A workshop that is made for an orderly target is regular. -/
theorem Target.Orderly.regular {t : Target} {dir : Path} (ht : t.Orderly dir) (hplain : dir.Plain)
    {workshop : Workshop} (h : Workshop.ofTarget t = .ok workshop) : workshop.Regular := by
  obtain ⟨rfl, hcompiler, hboard, happlication, hloader⟩ := ht
  obtain ⟨plan, hplan, rfl⟩ := ofTarget_eq_ok h
  obtain ⟨hb, hc, ha, hl⟩ := plan_eq_ok hplan
  refine ⟨⟨.inl rfl, hplain, hcompiler _ hc, ?_⟩, ?_⟩
  · exact List.forall_mem_cons.2 ⟨hboard _ hb, happlication _ ha⟩
  · rintro _ hsome
    obtain ⟨l, hl', rfl⟩ := Option.map_eq_some_iff.1 hsome
    rw [hl'] at hl
    refine ⟨⟨.inr rfl, hplain, hcompiler _ hc, ?_⟩, rfl⟩
    exact List.forall_mem_cons.2 ⟨hboard _ hb, hloader _ hl⟩

namespace Underway
variable {since w : World} {place : Place} (hu : Underway Planned since w)
  (hnew : since.disk.HasNew w.disk place)
include hu hnew

private theorem ran_compiles (hend : place.EndsIn 'o') :
    World.Ran (Command.Compiles since.disk.here place) since w :=
  (hu.exists_writes hnew (hend.not_isRecord rfl (by decide))).imp
    fun _ hc => Command.compiles_of_writes hc.1 hc.2 hend

private theorem ran_archives (hend : place.EndsIn 'a') :
    World.Ran (Command.Archives since.disk.here place) since w :=
  (hu.exists_writes hnew (hend.not_isRecord rfl (by decide))).imp
    fun _ hc => Command.archives_of_writes hc.1 hc.2 hend

private theorem ran_links (hend : place.EndsIn 'f' ∧ ¬ place.Bears "loader_rom.elf") :
    World.Ran (Command.Links since.disk.here place) since w :=
  (hu.exists_writes hnew (hend.1.not_isRecord rfl (by decide))).imp
    fun _ hc => Command.links_of_writes hc.1 hc.2 hend.1 hend.2

end Underway

namespace Round
variable {r : Round} {h : Half} {source object archive : Path}

section
variable (hu : Underway Builds r.before r.before) (hold : r.before.disk.Outdated source object)
  {result : BuildResult} {s' : Workshop × World} (hok : r.run = .ok result s')
include hu hold hok

private theorem hasNew_single (ha : r.workshop.application.Regular)
    (hsplit : r.workshop.isSplit = false)
    (hmakes : r.workshop.application.Makes source object archive)
    (hfiles : ∀ p ∈ [archive, r.workshop.application.binary],
      ¬ s'.2.disk.files.IsDirectory (p.place r.before.disk.here)) :
    (∀ p ∈ [object, archive, r.workshop.application.binary],
      r.before.disk.HasNew s'.2.disk (p.place r.before.disk.here)) ∧
      Underway Planned r.before s'.2 := by
  rcases r.run_cases with ⟨-, hrun⟩ | ⟨hsplit', -⟩
  · rw [hrun] at hok
    obtain ⟨t, hsingle, rfl⟩ := within_eq_ok_iff.1 hok
    obtain ⟨hnew, hw⟩ := Build.hasNew_of_single (s := (r.workshop.application, r.before)) ha hu hold
      hmakes hsingle hfiles
    exact ⟨hnew, hw.imp fun _ => .inl⟩
  · rw [hsplit] at hsplit'
    cases hsplit'

private theorem hasNew_split (ha : r.workshop.application.Regular)
    (hsplit : r.workshop.isSplit = true) {loader : Half} (hloader : r.workshop.loader = some loader)
    (hl : loader.Regular) (hname : loader.name = "loader")
    (hh : h = loader ∨ h = r.workshop.application) (hmakes : h.Makes source object archive)
    (hfiles : ∀ p ∈ [archive, h.binary, loader.loaderImage, r.workshop.application.binary],
      ¬ s'.2.disk.files.IsDirectory (p.place r.before.disk.here)) :
    (∀ p ∈ [object, archive, h.binary, r.workshop.application.binary],
      r.before.disk.HasNew s'.2.disk (p.place r.before.disk.here)) ∧
      World.Ran (Copies loader.binary loader.loaderImage) r.before s'.2 ∧
      World.Ran (RenamesBoundaries loader.loaderImage) r.before s'.2 ∧
      Underway Planned r.before s'.2 := by
  obtain ⟨loader', l, x, j, s, s₁, hloader', -, hhalves, hsettle, hconclude, -, -⟩ :=
    r.split_steps hsplit hok
  obtain rfl := Option.some.inj (hloader.symm.trans hloader')
  obtain ⟨⟨archives, hx⟩, hxl, hj, hjbinary⟩ :=
    Build.regular_of_settle (s := (r.workshop, r.before)) hl ha hhalves hsettle
  obtain ⟨hxname, hbinary, himage⟩ : x.loader.name = "loader" ∧
      x.loader.binary = loader.binary ∧ x.loader.loaderImage = loader.loaderImage := by
    rw [hx]
    exact ⟨hname, rfl, rfl⟩
  have hcourse := course_progress Builds
  have hu₁ := hu.next (Build.of_halves hcourse hl.issues ha.issues hhalves).2.2
  have hplanned : Underway Planned r.before s.2 := hu₁.imp fun _ => .inl
  have hfinished := Build.progress_finish hxl hxname hj hsettle hconclude
  simp only [List.forall_mem_cons] at hfiles ⊢
  obtain ⟨harchiveFile, hhalfFile, himageFile, happlicationFile, -⟩ := hfiles
  obtain ⟨hnew, hhalf, harchive⟩ := Build.hasNew_of_halves hl ha hu hold hh hmakes hhalves
    (List.forall_mem_cons.2 ⟨hplanned.not_isDirectory hfinished harchiveFile,
      List.forall_mem_singleton.2 (hplanned.not_isDirectory hfinished hhalfFile)⟩)
  rw [List.forall_mem_cons, List.forall_mem_singleton] at hnew
  obtain ⟨hobjectNew, harchiveNew⟩ := hnew
  rw [← himage] at himageFile ⊢
  rw [← hjbinary] at happlicationFile ⊢
  rw [← hbinary]
  obtain ⟨happlicationNew, hcopied, hrenamed⟩ := Build.hasNew_of_finish hxl hxname hj hsettle
    hconclude hu₁ harchive harchiveNew
    (List.forall_mem_cons.2 ⟨himageFile, List.forall_mem_singleton.2 happlicationFile⟩)
  refine ⟨⟨hplanned.hasNew hfinished hobjectNew, hplanned.hasNew hfinished harchiveNew, ?_,
    happlicationNew, List.forall_mem_nil _⟩, hcopied, hrenamed, hplanned.next hfinished⟩
  rcases hhalf with rfl | hhalfNew
  · rw [← hjbinary]
    exact happlicationNew
  · exact hplanned.hasNew hfinished hhalfNew

end

/-- A source that has changed since its object was made reaches, in a build that succeeds, the object,
the archive of its package and the binary of its half, and in a split image also the loader image and
the application, whether or not the application links the package itself. The tools that succeed write
their outputs, no file has a time to come, and the outputs are no directories, whose times are not the
clock's. -/
theorem change_propagates (hregular : r.workshop.Regular) (htools : r.before.tools.Honest)
    (hdisk : r.before.disk.Grounded) (hpunctual : r.before.disk.Punctual)
    (hh : h ∈ r.workshop.halves) (hmakes : h.Makes source object archive)
    (hold : r.before.disk.Outdated source object) {result : BuildResult} {s' : Workshop × World}
    (hok : r.run = .ok result s')
    (hfiles : ∀ p ∈ archive :: r.workshop.binaries,
      ¬ s'.2.disk.files.IsDirectory (p.place r.before.disk.here)) :
    let here := r.before.disk.here
    World.Ran (Command.Compiles here (object.place here)) r.before s'.2 ∧
      World.Ran (Command.Archives here (archive.place here)) r.before s'.2 ∧
      World.Ran (Command.Links here (h.binary.place here)) r.before s'.2 ∧
      (r.workshop.isSplit = true → ∀ loader, r.workshop.loader = some loader →
        World.Ran (Copies loader.binary loader.loaderImage) r.before s'.2 ∧
        World.Ran (RenamesBoundaries loader.loaderImage) r.before s'.2 ∧
        World.Ran (Command.Links here (r.workshop.application.binary.place here)) r.before s'.2) := by
  have hu : Underway Builds r.before r.before :=
    ⟨htools, hpunctual, .of_disk rfl rfl (.refl hdisk)⟩
  have ha := hregular.application
  have hharchive := hmakes.endsIn_archive r.before.disk.here
  have happlication := ha.binary_place r.before.disk.here
  obtain ⟨harchiveFile, hbinaryFiles⟩ := List.forall_mem_cons.1 hfiles
  have happlicationFile := hbinaryFiles _ r.workshop.application_mem_binaries
  cases hsplit : r.workshop.isSplit with
  | false =>
    obtain rfl := (Workshop.mem_halves_of_single hsplit).1 hh
    obtain ⟨hnew, hw⟩ := hasNew_single hu hold hok ha hsplit hmakes
      (List.forall_mem_cons.2 ⟨harchiveFile, List.forall_mem_singleton.2 happlicationFile⟩)
    simp only [List.forall_mem_cons] at hnew
    obtain ⟨hobjectNew, harchiveNew, hbinaryNew, -⟩ := hnew
    exact ⟨hw.ran_compiles hobjectNew (hmakes.endsIn_object ha _),
      hw.ran_archives harchiveNew hharchive, hw.ran_links hbinaryNew happlication,
      Bool.noConfusion⟩
  | true =>
    obtain ⟨loader, hloader⟩ := Option.isSome_iff_exists.1 (Bool.and_eq_true_iff.1 hsplit).1
    obtain ⟨hl, hname⟩ := hregular.loader loader hloader
    obtain ⟨hloaderFile, himageFile⟩ := (Workshop.mem_binaries hloader).imp (hbinaryFiles _)
      (hbinaryFiles _)
    have hhalf := (Workshop.mem_halves_of_split hsplit hloader).1 hh
    obtain ⟨hhr, hhalfFile⟩ : h.Regular ∧
        ¬ s'.2.disk.files.IsDirectory (h.binary.place r.before.disk.here) := by
      rcases hhalf with rfl | rfl
      · exact ⟨hl, hloaderFile⟩
      · exact ⟨ha, happlicationFile⟩
    obtain ⟨hnew, hcopied, hrenamed, hw⟩ := hasNew_split hu hold hok ha hsplit hloader hl hname
      hhalf hmakes (by
        simp only [List.forall_mem_cons]
        exact ⟨harchiveFile, hhalfFile, himageFile, happlicationFile, List.forall_mem_nil _⟩)
    simp only [List.forall_mem_cons] at hnew
    obtain ⟨hobjectNew, harchiveNew, hbinaryNew, happlicationNew, -⟩ := hnew
    refine ⟨hw.ran_compiles hobjectNew (hmakes.endsIn_object hhr _),
      hw.ran_archives harchiveNew hharchive, hw.ran_links hbinaryNew (hhr.binary_place _), ?_⟩
    rintro - loader' hloader'
    obtain rfl := Option.some.inj (hloader.symm.trans hloader')
    exact ⟨hcopied, hrenamed, hw.ran_links happlicationNew happlication⟩

/-- How both halves and the linked loader list the function of the package q. -/
def sharedListing : String := "00000000 g     F .text\t00000008 f\n"

/-- Both halves have the package q, and the application takes it from the loader. -/
def sharedRound : Round where
  workshop := History.exampleWorkshop [History.examplePackage "q" "q.c"]
  before := { History.exampleStart with
    tools := ⟨[], [("o/loader/lib/q.a", sharedListing), ("o/loader/loader.elf", sharedListing),
      ("o/app/lib/q.a", sharedListing)]⟩ }

/-- The same target again, after the source of the package has changed. -/
def changedRound : Round where
  workshop := sharedRound.workshop
  before := { sharedRound.after with
    disk := (sharedRound.after.disk.touch ⟨.relative, ["q.c"]⟩ none).toOption.getD
      sharedRound.after.disk }

/-- The application's own object and archive of the package. -/
def changedObject : Path := ⟨.relative, ["o", "app", "obj", "q", "q.o"]⟩

def changedArchive : Path := ⟨.relative, ["o", "app", "lib", "q.a"]⟩

private theorem changedRound_facts :
    (answer? changedRound.run).map (·.commonPackages) = some [Text.ofString "q"] ∧
      changedRound.before.tools.Honest ∧ changedRound.before.disk.Grounded ∧
      changedRound.before.disk.Punctual ∧
      changedRound.before.disk.Outdated ⟨.relative, ["q.c"]⟩ changedObject ∧
      ∀ p ∈ changedArchive :: changedRound.workshop.binaries,
        ¬ (leaves changedRound.run).2.disk.files.IsDirectory
          (p.place changedRound.before.disk.here) := by
  decide +kernel

private theorem regular_changedRound : changedRound.workshop.Regular := by
  refine (History.orderly_exampleTarget ?_).regular History.plain_exampleDir
    (History.ofTarget_exampleTarget [History.examplePackage "q" "q.c"])
  exact List.forall_mem_singleton.2 (History.orderly_examplePackage (by decide))

theorem change_propagates_shared :
    ∃ loader result s', changedRound.workshop.loader = some loader ∧
      changedRound.run = .ok result s' ∧ result.commonPackages = [Text.ofString "q"] ∧
      let here := changedRound.before.disk.here
      World.Ran (Command.Compiles here (changedObject.place here)) changedRound.before s'.2 ∧
        World.Ran (Command.Archives here (changedArchive.place here)) changedRound.before s'.2 ∧
        World.Ran (Copies loader.binary loader.loaderImage) changedRound.before s'.2 ∧
        World.Ran (RenamesBoundaries loader.loaderImage) changedRound.before s'.2 ∧
        World.Ran (Command.Links here (changedRound.workshop.application.binary.place here))
          changedRound.before s'.2 := by
  obtain ⟨hanswer, htools, hdisk, hpunctual, hold, hfiles⟩ := changedRound_facts
  obtain ⟨result, hresult, hcommon⟩ := Option.map_eq_some_iff.1 hanswer
  have hmakes : changedRound.workshop.application.Makes ⟨.relative, ["q.c"]⟩ changedObject
      changedArchive :=
    ⟨History.examplePackage "q" "q.c", List.mem_cons_of_mem _ List.mem_cons_self, rfl,
      ⟨.relative, ["o", "app", "obj", "q"]⟩, [changedObject], rfl, rfl, List.mem_cons_self⟩
  have hsplit : changedRound.workshop.isSplit = true := rfl
  obtain ⟨loader, hloader⟩ : ∃ loader, changedRound.workshop.loader = some loader := ⟨_, rfl⟩
  have happlication := (Workshop.mem_halves_of_split hsplit hloader).2 (.inr rfl)
  have hok := eq_ok_of_answer? hresult
  obtain ⟨hcompiles, harchives, -, himage⟩ := change_propagates regular_changedRound htools hdisk
    hpunctual happlication hmakes hold hok hfiles
  obtain ⟨hcopies, hrenames, hlinks⟩ := himage hsplit loader hloader
  exact ⟨loader, result, _, hloader, hok, hcommon, hcompiles, harchives, hcopies, hrenames, hlinks⟩

end Round
end DualImage
