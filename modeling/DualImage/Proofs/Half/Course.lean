import DualImage.Build
import DualImage.Proofs.Compiler.Course
import DualImage.Proofs.Half.Extraction

/-! Building, linking and reading a half step by step. -/
namespace DualImage
variable {C : Command → Prop} {A : Path → Prop} {R : World → World → Prop} {α : Type}

namespace Half
variable {h : Half} {s s' : Half × World} {package : Package}

theorem ofAction_eq_ok_iff {a : Action α} {x : α} :
    HalfAction.ofAction a s = .ok x s' ↔ s'.1 = s.1 ∧ a s.2 = .ok x s'.2 := by
  rw [HalfAction.ofAction, within_eq_ok_iff]
  constructor
  · rintro ⟨w, hw, rfl⟩
    exact ⟨rfl, hw⟩
  · rintro ⟨hsame, hw⟩
    exact ⟨s'.2, hw, Prod.ext hsame rfl⟩

/-- A package is compiled, and archived when it has objects. Its archive is recorded. -/
theorem buildPackage_eq_ok (hr : buildPackage package s = .ok () s') :
    ∃ objectDir objects w, s.1.objectDir package.name = .ok objectDir ∧
      s.1.compiler.compile package objectDir s.1.features s.2 = .ok objects w ∧
      if objects = [] then s'.1 = s.1 ∧ Spoken w s'.2
      else ∃ path, s.1.archivePath package.name = .ok path ∧
        s.1.compiler.archive objects path w = .ok path s'.2 ∧
        s'.1 = s.1.record (package.name.text?.getD "") path := by
  obtain ⟨_, _, hget, hr⟩ := Action.bind_eq_ok_iff.1 hr
  cases hget
  obtain ⟨objectDir, s₁, hdir, hr⟩ := Action.bind_eq_ok_iff.1 hr
  obtain ⟨hsame, hdir⟩ := ofAction_eq_ok_iff.1 hdir
  obtain ⟨objects, s₂, hcompile, hr⟩ := Action.bind_eq_ok_iff.1 hr
  obtain ⟨hsame₂, hcompile⟩ := ofAction_eq_ok_iff.1 hcompile
  obtain ⟨hdir, hw₁⟩ := World.lift_eq_ok_iff.1 hdir
  rw [hw₁] at hcompile
  refine ⟨objectDir, objects, s₂.2, hdir, hcompile, ?_⟩
  have hbefore : s₂.1 = s.1 := hsame₂.trans hsame
  cases objects with
  | nil =>
    obtain ⟨hsame₃, hsay⟩ := ofAction_eq_ok_iff.1 hr
    rw [if_pos rfl]
    exact ⟨hsame₃.trans hbefore, ((Answers.say ..).of_ok hsay).2⟩
  | cons object rest =>
    obtain ⟨path, s₃, harchive, hr⟩ := Action.bind_eq_ok_iff.1 hr
    obtain ⟨hsame₃, harchive⟩ := ofAction_eq_ok_iff.1 harchive
    obtain ⟨_, w, hlift, harchive⟩ := Action.bind_eq_ok_iff.1 harchive
    obtain ⟨hpath, rfl⟩ := World.lift_eq_ok_iff.1 hlift
    obtain rfl := (Compiler.archive_steps harchive).1
    cases hr
    rw [if_neg (List.cons_ne_nil _ _)]
    refine ⟨path, hpath, harchive, ?_⟩
    dsimp only
    rw [hsame₃, hbefore]

/-- A half is built package by package. -/
theorem build_eq_ok (hr : Half.build s = .ok () s') :
    ∃ w, Spoken s.2 w ∧ s.1.packages.forM buildPackage (s.1, w) = .ok ⟨⟩ s' := by
  obtain ⟨_, _, hget, hr⟩ := Action.bind_eq_ok_iff.1 hr
  cases hget
  obtain ⟨_, t, hsay, hr⟩ := Action.bind_eq_ok_iff.1 hr
  obtain ⟨hsame, hsay⟩ := ofAction_eq_ok_iff.1 hsay
  rw [← hsame] at hr ⊢
  exact ⟨t.2, ((Answers.say ..).of_ok hsay).2, hr⟩

/-- The commands by which the half is built, linked and read are among the given ones, and so are its
archives. -/
structure Issues (C : Command → Prop) (A : Path → Prop) (h : Half) : Prop where
  compile : ∀ package ∈ h.packages, ∀ objectDir objects, h.objectDir package.name = .ok objectDir →
    objectPaths? package.sources objectDir = some objects → ∀ object ∈ objects, ∀ source command,
      h.compiler.compileCommand package h.features source object = .ok command → C command
  archive : ∀ name path tool, h.archivePath name = .ok path → h.compiler.tool "ar" = .ok tool →
    ∀ objects, C (tool :: "rcs" :: path.toText :: objects)
  archivePath : ∀ name path, h.archivePath name = .ok path → A path
  link : ∀ archives script symbolFiles command,
    h.compiler.linkCommand archives script h.binary symbolFiles = .ok command → C command
  dump : ∀ tool, h.compiler.tool "objdump" = .ok tool → ∀ p : Path, C [tool, "-t", p.toText]

theorem Issues.imp {C' : Command → Prop} (hh : h.Issues C A) (hC : ∀ c, C c → C' c) :
    h.Issues C' A where
  compile p hp objectDir objects hdir hobjects object ho source command hcommand :=
    hC _ (hh.compile p hp objectDir objects hdir hobjects object ho source command hcommand)
  archive name path tool hpath htool objects := hC _ (hh.archive name path tool hpath htool objects)
  archivePath := hh.archivePath
  link archives script symbolFiles command hcommand :=
    hC _ (hh.link archives script symbolFiles command hcommand)
  dump tool htool p := hC _ (hh.dump tool htool p)

theorem Issues.of_archives (hh : h.Issues C A) (archives : List (Text × Path)) :
    { h with archives }.Issues C A :=
  ⟨hh.compile, hh.archive, hh.archivePath, hh.link, hh.dump⟩

section
variable [IsPreorder World R] (hcourse : Course C A R)
include hcourse

theorem ensures_link (hh : h.Issues C A) (script : Path) (symbolFiles : List Path) :
    Ensures R (h.link script symbolFiles) :=
  Ensures.lift_bind fun archives _ => hcourse.link (hh.link archives script symbolFiles)

theorem ensures_readBinary (hh : h.Issues C A) (path : Path) : Ensures R (h.readBinary path) := by
  apply (hcourse.dumpSymbols fun tool htool => hh.dump tool htool path).bind
  intro text
  exact hcourse.readListing _ text

theorem ensures_extractSymbols (hh : h.Issues C A) : Ensures R h.extractSymbols := by
  apply Ensures.foldlM
  intro symbols package _
  apply Ensures.lift_bind
  intro path? _
  cases path? with
  | none => exact .pure _
  | some path =>
    apply (hcourse.dumpSymbols fun tool htool => hh.dump tool htool path).bind
    intro text
    apply (hcourse.readListing _ text).bind
    intro listed
    exact hcourse.of_answers fun w => World.answers_settle _ w

/-- Building a package compiles its sources and makes its archive. -/
theorem of_buildPackage_of
    (hcompile : ∀ objectDir objects, s.1.objectDir package.name = .ok objectDir →
      objectPaths? package.sources objectDir = some objects →
      ∀ pair ∈ package.sources.zip objects, ∀ command,
        s.1.compiler.compileCommand package s.1.features pair.1 pair.2 = .ok command → C command)
    (harchive : ∀ objectDir objects path, s.1.objectDir package.name = .ok objectDir →
      objectPaths? package.sources objectDir = some objects →
      s.1.archivePath package.name = .ok path → A path ∧ ∀ tool, s.1.compiler.tool "ar" = .ok tool →
        C (tool :: "rcs" :: path.toText :: objects.map Path.toText))
    (hr : buildPackage package s = .ok () s') :
    (∃ archives, s'.1 = { s.1 with archives }) ∧ R s.2 s'.2 := by
  obtain ⟨objectDir, objects, w, hdir, hcompiled, hrest⟩ := buildPackage_eq_ok hr
  have hfirst : R s.2 w :=
    hcourse.compile (fun objects hobjects => hcompile objectDir objects hdir hobjects) hcompiled
  split at hrest
  · obtain ⟨hsame, hspoken⟩ := hrest
    exact ⟨⟨s.1.archives, hsame⟩, trans_of R hfirst (hcourse.spoken _ _ hspoken)⟩
  · obtain ⟨path, hpath, harchived, hsame⟩ := hrest
    obtain ⟨hA, htool⟩ :=
      harchive objectDir objects path hdir (Compiler.compile_steps hcompiled).1 hpath
    exact ⟨⟨_, hsame⟩, trans_of R hfirst (hcourse.archive _ objects path hA htool harchived)⟩

theorem of_buildPackage (hh : s.1.Issues C A) (hp : package ∈ s.1.packages)
    (hr : buildPackage package s = .ok () s') :
    (∃ archives, s'.1 = { s.1 with archives }) ∧ R s.2 s'.2 :=
  of_buildPackage_of hcourse
    (fun objectDir objects hdir hobjects pair hpair =>
      hh.compile package hp objectDir objects hdir hobjects pair.2 (List.of_mem_zip hpair).2 pair.1)
    (fun _ _ path _ _ hpath =>
      ⟨hh.archivePath _ path hpath, fun tool htool => hh.archive _ path tool hpath htool _⟩)
    hr

theorem of_buildPackages (hh : s.1.Issues C A) {packages : List Package}
    (hsub : packages ⊆ s.1.packages) (hr : packages.forM buildPackage s = .ok ⟨⟩ s') :
    (∃ archives, s'.1 = { s.1 with archives }) ∧ R s.2 s'.2 := by
  induction packages generalizing s with
  | nil =>
    cases hr
    exact ⟨⟨s'.1.archives, rfl⟩, refl_of R s'.2⟩
  | cons package rest ih =>
    obtain ⟨hp, hrest⟩ := List.cons_subset.1 hsub
    obtain ⟨t, hfirst, hr⟩ := Action.forM_cons_eq_ok_iff.1 hr
    obtain ⟨⟨archives, hsame⟩, hw⟩ := of_buildPackage hcourse hh hp hfirst
    obtain ⟨⟨archives', hsame'⟩, hw'⟩ :=
      ih (hsame ▸ hh.of_archives archives) (by rw [hsame]; exact hrest) hr
    exact ⟨⟨archives', by rw [hsame', hsame]⟩, trans_of R hw hw'⟩

/-- Building a half runs through its packages. -/
theorem of_build (hh : s.1.Issues C A) (hr : Half.build s = .ok () s') :
    (∃ archives, s'.1 = { s.1 with archives }) ∧ R s.2 s'.2 := by
  obtain ⟨w, hspoken, hr⟩ := build_eq_ok hr
  obtain ⟨harchives, hw⟩ := of_buildPackages (s := (s.1, w)) hcourse hh (List.Subset.refl _) hr
  exact ⟨harchives, trans_of R (hcourse.spoken _ _ hspoken) hw⟩

/-- Building a half comes to each of its packages. -/
theorem package_of_build (hh : s.1.Issues C A) (hp : package ∈ s.1.packages)
    (hr : Half.build s = .ok () s') :
    ∃ archives w t, R s.2 w ∧ buildPackage package ({ s.1 with archives }, w) = .ok () t ∧
      R t.2 s'.2 := by
  obtain ⟨u, hspoken, hr⟩ := build_eq_ok hr
  obtain ⟨front, back, ⟨h, w⟩, t, hfrontSub, hbackSub, hfront, hpackage, hback⟩ :=
    Action.forM_eq_ok_of_mem hp hr
  obtain ⟨⟨archives, rfl⟩, hbefore⟩ := of_buildPackages (s := (s.1, u)) hcourse hh hfrontSub hfront
  have hissues := hh.of_archives archives
  obtain ⟨⟨archives', ht⟩, -⟩ :=
    of_buildPackage (s := ({ s.1 with archives }, w)) hcourse hissues hp hpackage
  have hafter := of_buildPackages hcourse (ht ▸ hissues.of_archives archives')
    (by rw [ht]; exact hbackSub) hback
  exact ⟨archives, w, t, trans_of R (hcourse.spoken _ _ hspoken) hbefore, hpackage, hafter.2⟩

end

end Half
end DualImage
