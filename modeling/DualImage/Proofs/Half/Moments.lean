import DualImage.Proofs.Half.Newness

/-! Every object of a half that is built has its moment: the step at which its source is looked at, and
compiled if need be. After it the object is there. -/
namespace DualImage
open Command (Builds)
variable {C : Command → Prop} {A : Path → Prop} {R : World → World → Prop}

namespace Disk
variable {d d' : Disk} {written : Place → Prop} {place : Place}

/-- What is there stays there, though it may be another file. -/
theorem Advances.ne_none (h : Advances written d d') (hthere : d.files.find? place ≠ none) :
    d'.files.find? place ≠ none := by
  cases h.turn place with
  | same h => exact h ▸ hthere
  | directory _ h' => exact h'.ne_none
  | renewed e _ h' =>
    rw [h']
    exact Option.some_ne_none e

end Disk

namespace Half
variable {h : Half} {source object archive : Path} {s s' : Half × World} {w w' w'' : World}

/-- Between the two the source was looked at for its object. What went before and what came after
is as the relation says. -/
def Moment (R : World → World → Prop) (h : Half) (source object : Path) (w w' : World) : Prop :=
  ∃ package ∈ h.packages, ∃ objectDir objects, h.objectDir package.name = .ok objectDir ∧
    objectPaths? package.sources objectDir = some objects ∧ object ∈ objects ∧
    ∃ v v', R w v ∧ h.compiler.compileSource package h.features source object v = .ok () v' ∧ R v' w'

namespace Moment
variable [IsPreorder World R]

theorem after (h' : R w w') (hm : Moment R h source object w' w'') :
    Moment R h source object w w'' := by
  obtain ⟨package, hp, objectDir, objects, hdir, hobjects, ho, v, v', hv, hr, hv'⟩ := hm
  exact ⟨package, hp, objectDir, objects, hdir, hobjects, ho, v, v', trans_of R h' hv, hr, hv'⟩

theorem before (hm : Moment R h source object w w') (h' : R w' w'') :
    Moment R h source object w w'' := by
  obtain ⟨package, hp, objectDir, objects, hdir, hobjects, ho, v, v', hv, hr, hv'⟩ := hm
  exact ⟨package, hp, objectDir, objects, hdir, hobjects, ho, v, v', hv, hr, trans_of R hv' h'⟩

end Moment

section
variable [IsPreorder World R] (hcourse : Course C A R)
include hcourse

private theorem moment_of_buildPackage (hh : s.1.Issues C A) {package : Package}
    {objectDir : Path} {objects : List Path} (hp : package ∈ s.1.packages)
    (hdir : s.1.objectDir package.name = .ok objectDir)
    (hobjects : objectPaths? package.sources objectDir = some objects)
    (hmem : (source, object) ∈ package.sources.zip objects)
    (hr : buildPackage package s = .ok () s') : Moment R s.1 source object s.2 s'.2 := by
  obtain ⟨objectDir', objects', w, hdir', hcompile, hrest⟩ := buildPackage_eq_ok hr
  cases hdir.symm.trans hdir'
  cases hobjects.symm.trans (Compiler.compile_steps hcompile).1
  have hobject : object ∈ objects := (List.of_mem_zip hmem).2
  rw [if_neg (List.ne_nil_of_mem hobject)] at hrest
  obtain ⟨path, hpath, harchive, -⟩ := hrest
  have harchived : R w s'.2 := hcourse.archive _ objects path (hh.archivePath _ path hpath)
    (fun tool htool => hh.archive _ path tool hpath htool _) harchive
  obtain ⟨v, v', hv, hsource, hv'⟩ := hcourse.source_of_compile
    (hh.compile package hp objectDir objects hdir hobjects) hmem hcompile
  exact ⟨package, hp, objectDir, objects, hdir, hobjects, hobject, v, v', hv, hsource,
    trans_of R hv' harchived⟩

/-- A half that is built sees to each of its objects. -/
theorem moment_of_build (hh : s.1.Issues C A) (hmakes : s.1.Makes source object archive)
    (hr : Half.build s = .ok () s') : Moment R s.1 source object s.2 s'.2 := by
  obtain ⟨package, hp, -, objectDir, objects, hdir, hobjects, hmem⟩ := hmakes
  obtain ⟨archives, w, t, hbefore, hpackage, hafter⟩ := package_of_build hcourse hh hp hr
  have hmoment := moment_of_buildPackage (s := (_, w)) hcourse (hh.of_archives archives) hp hdir
    hobjects hmem hpackage
  exact (hmoment.before hafter).after hbefore

end

/-- An object that is up to date is there, and so is one that has been compiled. -/
private theorem exists_of_compileSource {c : Compiler} {package : Package} {defines : List Document}
    (hd : w.disk.Grounded) (htools : w.tools.Honest)
    (hout : ∀ command, c.compileCommand package defines source object = .ok command →
      command.output? = some object)
    (hr : c.compileSource package defines source object w = .ok () w') :
    w'.disk.files.find? (object.place w.disk.here) ≠ none := by
  obtain ⟨stale, w₁, hstale, hrest⟩ := Compiler.compileSource_steps hr
  cases stale with
  | false =>
    obtain rfl := hrest
    obtain ⟨rfl, e, he, -⟩ := World.isStale_eq_false_iff.1 hstale
    obtain ⟨place, hplace, hfind⟩ := Disk.entry_eq_ok_iff.1 he
    rw [← Disk.eq_place_of_locate hplace, hfind]
    exact Option.some_ne_none e
  | true =>
    obtain ⟨command, w₂, shown, hcommand, hsaid, hrun⟩ := hrest
    have hunmoved := (trans_of Spoken (World.isStale_eq_ok hstale) hsaid).unmoved
    have hhonest : w₂.tools.Honest := hunmoved.tools ▸ htools
    rcases World.run_eq_ok hhonest hrun with ⟨hnone, -⟩ | ⟨p, d, d', place, hp, hmade, hplace, hnew, rfl⟩
    · rw [hout command hcommand] at hnone
      cases hnone
    · obtain rfl := Option.some.inj ((hout command hcommand).symm.trans hp)
      have hhere : d.here = w.disk.here := by
        have hadvances := Disk.advances_ensureDirectories Place.IsRecord hd object.parent
        rw [← hunmoved.disk, hmade] at hadvances
        exact hadvances.here.trans (congrArg Disk.here hunmoved.disk)
      obtain ⟨e, he, -⟩ := hnew.entry
      rw [← hhere, ← Disk.eq_place_of_locate hplace, he]
      exact Option.some_ne_none e

/-- An object that has been seen to is there. -/
theorem Moment.exists_object (hh : h.Regular) (hC : ∀ c, Builds c → C c)
    (hm : Moment (Progress C) h source object w w') (hd : w.disk.Grounded)
    (htools : w.tools.Honest) : w'.disk.files.find? (object.place w.disk.here) ≠ none := by
  obtain ⟨package, hp, objectDir, objects, hdir, hobjects, ho, v, v', hv, hr, hv'⟩ := hm
  have hbefore := hv hd htools
  have hhonest : v.tools.Honest := hbefore.tools ▸ htools
  have hstep : Progressed C v v' := (course_progress C).compileSource (fun command hcommand =>
    hC _ (hh.issues.compile package hp objectDir objects hdir hobjects object ho source command
      hcommand)) hr hbefore.disk.grounded hhonest
  have hthere := exists_of_compileSource hbefore.disk.grounded hhonest
    (fun command hcommand => hh.output?_compile hp hdir hobjects ho hcommand) hr
  rw [hbefore.disk.here] at hthere
  exact (hv' hstep.disk.grounded (hstep.tools ▸ hhonest)).disk.ne_none hthere

end Half
end DualImage
