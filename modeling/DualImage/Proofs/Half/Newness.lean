import DualImage.Proofs.Compiler.Newness
import DualImage.Proofs.Half.Archives
import DualImage.Proofs.Half.Commands

/-! A changed source makes its object, the archive of its package and the binary of its half new. -/
namespace DualImage
open Command (Builds)
variable {since : World}

/-- The half makes this object from this source, for this archive of one of its packages. -/
def Half.Makes (h : Half) (source object archive : Path) : Prop :=
  ∃ package ∈ h.packages, h.archivePath package.name = .ok archive ∧
    ∃ objectDir objects, h.objectDir package.name = .ok objectDir ∧
      objectPaths? package.sources objectDir = some objects ∧
      (source, object) ∈ package.sources.zip objects

namespace Half
variable {h : Half} {source object archive : Path} {s s' : Half × World}

theorem Regular.of_archives (hh : h.Regular) (archives : List (Text × Path)) :
    { h with archives }.Regular :=
  ⟨hh.name, hh.plain, hh.flags, hh.packages⟩

theorem Regular.of_packages (hh : h.Regular) {packages : List Package}
    (hsub : packages ⊆ h.packages) : { h with packages }.Regular :=
  ⟨hh.name, hh.plain, hh.flags, fun p hp => hh.packages p (hsub hp)⟩

theorem Makes.endsIn_object (hh : h.Regular) (hmakes : h.Makes source object archive)
    (here : Place) : (object.place here).EndsIn 'o' := by
  obtain ⟨package, hp, -, objectDir, objects, -, hobjects, hmem⟩ := hmakes
  refine Path.endsIn_place ?_ (by decide) here
  exact name_objectPaths (hh.packages package hp).sources hobjects (List.of_mem_zip hmem).2

theorem Makes.endsIn_archive (hmakes : h.Makes source object archive) (here : Place) :
    (archive.place here).EndsIn 'a' := by
  obtain ⟨package, -, hpath, -⟩ := hmakes
  exact Path.endsIn_place (name_archivePath hpath) (by decide) here

/-- Building the package of a changed source makes its object and its archive anew. -/
private theorem hasNew_of_buildPackage (hh : s.1.Regular) (hu : Underway Builds since s.2)
    (hold : since.disk.Outdated source object) {package : Package} {objectDir : Path}
    {objects : List Path} (hp : package ∈ s.1.packages)
    (hpath : s.1.archivePath package.name = .ok archive)
    (hdir : s.1.objectDir package.name = .ok objectDir)
    (hobjects : objectPaths? package.sources objectDir = some objects)
    (hmem : (source, object) ∈ package.sources.zip objects)
    (hr : buildPackage package s = .ok () s')
    (hfile : ¬ s'.2.disk.files.IsDirectory (archive.place since.disk.here)) :
    since.disk.HasNew s'.2.disk (object.place since.disk.here) ∧
      since.disk.HasNew s'.2.disk (archive.place since.disk.here) := by
  obtain ⟨objectDir', objects', w, hdir', hcompile, hrest⟩ := buildPackage_eq_ok hr
  cases hdir.symm.trans hdir'
  cases hobjects.symm.trans (Compiler.compile_steps hcompile).1
  have hobject : object ∈ objects := (List.of_mem_zip hmem).2
  rw [if_neg (List.ne_nil_of_mem hobject)] at hrest
  obtain ⟨path, hpath', harchive, -⟩ := hrest
  cases hpath.symm.trans hpath'
  have hcourse := course_progress Builds
  have hissues := hh.issues
  have hcommands := hissues.compile package hp objectDir objects hdir hobjects
  have hcompiled : Progress Builds s.2 w := by
    refine hcourse.compile (fun objects' hobjects' pair hpair => ?_) hcompile
    exact hissues.compile package hp objectDir objects' hdir hobjects' _ (List.of_mem_zip hpair).2 _
  have harchived : Progress Builds w s'.2 :=
    hcourse.archive _ objects archive (hh.plain_archivePath hpath)
      (fun tool htool => hissues.archive _ archive tool hpath htool _) harchive
  have hnew : since.disk.HasNew w.disk (object.place since.disk.here) := by
    refine hu.hasNew_of_compile (fun o ho source command hcommand => ?_) hmem hold hcompile
    exact ⟨hcommands o ho source command hcommand,
      hh.output?_compile hp hdir hobjects ho hcommand⟩
  have hw := hu.next hcompiled
  exact ⟨hw.hasNew harchived hnew,
    hw.hasNew_of_archive (hh.plain_archivePath hpath) hobject hnew harchive hfile⟩

section
variable (hh : s.1.Regular) (hu : Underway Builds since s.2)
include hh hu

/-- A half is built with the commands for it, and keeps its packages. -/
theorem underway_of_build (hr : Half.build s = .ok () s') :
    (∃ archives, s'.1 = { s.1 with archives }) ∧ Underway Builds since s'.2 := by
  obtain ⟨harchives, hstep⟩ := of_build (course_progress Builds) hh.issues hr
  exact ⟨harchives, hu.next hstep⟩

/-- A half that is built with a changed source has a new object and a new archive for it. -/
theorem hasNew_of_build (hold : since.disk.Outdated source object)
    (hmakes : s.1.Makes source object archive) (hr : Half.build s = .ok () s')
    (hfile : ¬ s'.2.disk.files.IsDirectory (archive.place since.disk.here)) :
    since.disk.HasNew s'.2.disk (object.place since.disk.here) ∧
      since.disk.HasNew s'.2.disk (archive.place since.disk.here) := by
  obtain ⟨package, hp, hpath, objectDir, objects, hdir, hobjects, hmem⟩ := hmakes
  have hcourse := course_progress Builds
  obtain ⟨archives, w, t, hbefore, hpackage, hafter⟩ :=
    package_of_build hcourse hh.issues hp hr
  have hregular := hh.of_archives archives
  have hw := hu.next hbefore
  have ht := hw.next (of_buildPackage (s := (_, w)) hcourse hregular.issues hp hpackage).2
  obtain ⟨hobject, harchive⟩ := hasNew_of_buildPackage (s := (_, w)) hregular hw hold hp hpath hdir
    hobjects hmem hpackage (ht.not_isDirectory hafter hfile)
  exact ⟨ht.hasNew hafter hobject, ht.hasNew hafter harchive⟩

end

/-- The archive of a package with a source is on the shelf once the half is built. -/
theorem Makes.mem_shelf {h' : Half} {w : World} (hmakes : s.1.Makes source object archive)
    (hr : Half.build s = .ok () (h', w)) : archive ∈ h'.shelf.map (·.2) := by
  obtain ⟨package, hp, hpath, objectDir, objects, -, -, hmem⟩ := hmakes
  exact mem_shelf_of_build hp (List.ne_nil_of_mem (List.of_mem_zip hmem).1) hpath hr

/-- The binary of a half is linked anew when an archive on its shelf or a symbol file is new. -/
theorem hasNew_of_link {C : Command → Prop} {w w' : World} (hh : h.Regular)
    (hu : Underway C since w) (hC : ∀ c, Builds c → C c) {script p q : Path}
    {symbolFiles : List Path} (hp : p ∈ h.shelf.map (·.2) ++ symbolFiles)
    (hnew : since.disk.HasNew w.disk (p.place since.disk.here))
    (hr : h.link script symbolFiles w = .ok q w')
    (hfile : ¬ w'.disk.files.IsDirectory (h.binary.place since.disk.here)) :
    since.disk.HasNew w'.disk (h.binary.place since.disk.here) := by
  obtain ⟨archives, w₁, hlift, hlink⟩ := Action.bind_eq_ok_iff.1 hr
  obtain ⟨harchives, rfl⟩ := World.lift_eq_ok_iff.1 hlift
  rw [← archivePaths_eq_ok harchives] at hp
  refine hu.hasNew_of_link (fun command hcommand => ⟨?_, ?_⟩) hp hnew hlink hfile
  · exact hC _ (hh.issues.link _ _ _ _ hcommand)
  · exact Compiler.output?_of_linkCommand hh.plain_binary hcommand

end Half
end DualImage
