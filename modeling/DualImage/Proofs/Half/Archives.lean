import DualImage.Proofs.Half.Course
import DualImage.Proofs.ObjectName

/-! Which archives a half has when it is built: one for each name under which there are sources. -/
namespace DualImage

namespace Half
variable {h : Half} {s s' : Half × World} {name : Text} {path : Path} {document : Document}

/-- Where the archive of a package of this name goes. -/
def archiveOf (h : Half) (name : Text) : Path :=
  (h.directory.child "lib").child ((Package.fileName? (.text name)).getD "" ++ Symbol.archiveSuffix)

theorem archivePath_eq_ok_iff :
    h.archivePath document = .ok path ↔ ∃ name, document.text? = some name ∧ path = h.archiveOf name := by
  unfold archivePath fileName Package.fileName? archiveOf
  cases document.text? with
  | none => simp [bind, Except.bind, throw, throwThe, MonadExceptOf.throw]
  | some name => simp [bind, Except.bind, pure, Except.pure, Package.fileName?, eq_comm]

/-- A name that gives a directory for objects gives an archive. -/
theorem exists_archivePath (hdir : h.objectDir document = .ok path) :
    ∃ archive, h.archivePath document = .ok archive := by
  obtain ⟨t, ht, -⟩ := Except.bind_eq_ok_iff.1 hdir
  exact ⟨_, Except.bind_eq_ok_iff.2 ⟨t, ht, rfl⟩⟩

/-- Some package of this name has sources. -/
def Yields (packages : List Package) (name : Text) : Prop :=
  ∃ p ∈ packages, p.name.text? = some name ∧ p.sources ≠ []

instance (packages : List Package) (name : Text) : Decidable (Yields packages name) := by
  unfold Yields
  infer_instance

private theorem lookup_cons_eq_ite (entry : Text × Path) (rest : List (Text × Path)) (name : Text) :
    (entry :: rest).lookup name = if name = entry.1 then some entry.2 else rest.lookup name := by
  rw [List.lookup_cons]
  by_cases hname : name = entry.1
  · simp [hname]
  · rw [beq_eq_false_iff_ne.2 hname, if_neg hname]

private theorem lookup_filter_ne {recorded : Text} (hname : name ≠ recorded)
    (archives : List (Text × Path)) :
    (archives.filter (·.1 != recorded)).lookup name = archives.lookup name := by
  induction archives with
  | nil => rfl
  | cons entry rest ih =>
    by_cases hother : entry.1 = recorded
    · simp [hother, hname, lookup_cons_eq_ite, ih]
    · simp [hother, lookup_cons_eq_ite, ih]

theorem lookup_record (h : Half) (recorded name : Text) (path : Path) :
    (h.record recorded path).archives.lookup name =
      if name = recorded then some path else h.archives.lookup name := by
  by_cases hname : name = recorded
  · simp [record, hname]
  · simp [record, hname, lookup_cons_eq_ite, lookup_filter_ne hname]

/-- After its build a package has an archive when it has sources. Other names keep theirs. -/
theorem lookup_buildPackage {package : Package} (hr : buildPackage package s = .ok () s') :
    (∃ archives, s'.1 = { s.1 with archives }) ∧ ∃ recorded, package.name.text? = some recorded ∧
      ∀ name, s'.1.archives.lookup name =
        if name = recorded ∧ package.sources ≠ [] then some (s.1.archiveOf name)
        else s.1.archives.lookup name := by
  obtain ⟨objectDir, objects, w, hdir, hcompile, hrest⟩ := buildPackage_eq_ok hr
  obtain ⟨recorded, htext⟩ : ∃ recorded, package.name.text? = some recorded := by
    obtain ⟨t, ht, -⟩ := Except.bind_eq_ok_iff.1 hdir
    cases htext : package.name.text? with
    | none =>
      rw [fileName, Package.fileName?, htext] at ht
      cases ht
    | some recorded => exact ⟨recorded, rfl⟩
  have hempty := objectPaths?_eq_nil_iff (Compiler.compile_steps hcompile).1
  split at hrest
  · next hnone =>
    rw [hrest.1]
    refine ⟨⟨_, rfl⟩, recorded, htext, fun name => ?_⟩
    rw [if_neg fun h => h.2 (hempty.1 hnone)]
  · next hsome =>
    obtain ⟨path, hpath, -, hsame⟩ := hrest
    obtain ⟨recorded', htext', rfl⟩ := archivePath_eq_ok_iff.1 hpath
    obtain rfl := Option.some.inj (htext.symm.trans htext')
    rw [hsame]
    refine ⟨⟨_, rfl⟩, recorded, htext, fun name => ?_⟩
    rw [htext, Option.getD_some, lookup_record]
    by_cases hname : name = recorded
    · rw [if_pos hname, if_pos ⟨hname, fun h => hsome (hempty.2 h)⟩, hname]
    · rw [if_neg hname, if_neg fun h => hname h.1]

private theorem lookup_buildPackages {packages : List Package}
    (hr : packages.forM buildPackage s = .ok ⟨⟩ s') :
    (∃ archives, s'.1 = { s.1 with archives }) ∧
      ∀ name, s'.1.archives.lookup name =
        if Yields packages name then some (s.1.archiveOf name) else s.1.archives.lookup name := by
  induction packages generalizing s with
  | nil =>
    cases hr
    exact ⟨⟨_, rfl⟩, fun name => (if_neg (by rintro ⟨p, ⟨⟩, -⟩)).symm⟩
  | cons package rest ih =>
    obtain ⟨t, hfirst, hrest⟩ := Action.forM_cons_eq_ok_iff.1 hr
    obtain ⟨⟨archives, hsame⟩, recorded, htext, hlookup⟩ := lookup_buildPackage hfirst
    obtain ⟨⟨archives', hsame'⟩, hlookup'⟩ := ih hrest
    refine ⟨⟨archives', by rw [hsame', hsame]⟩, fun name => ?_⟩
    have hof : t.1.archiveOf name = s.1.archiveOf name := by rw [hsame]; rfl
    have hyields : Yields (package :: rest) name ↔
        (name = recorded ∧ package.sources ≠ []) ∨ Yields rest name := by
      simp [Yields, htext, eq_comm]
    rw [hlookup' name, hlookup name, hof]
    by_cases hlater : Yields rest name
    · rw [if_pos hlater, if_pos (hyields.2 (.inr hlater))]
    · simp [hyields, hlater]

private theorem lookup_build (hr : Half.build s = .ok () s') :
    (∃ archives, s'.1 = { s.1 with archives }) ∧
      ∀ name, s'.1.archives.lookup name =
        if Yields s.1.packages name then some (s.1.archiveOf name) else s.1.archives.lookup name := by
  obtain ⟨w, -, hr⟩ := build_eq_ok hr
  exact lookup_buildPackages (s := (s.1, w)) hr

/-- A package with sources has its own archive recorded once the half is built. -/
theorem archive?_of_build {package : Package} (hp : package ∈ s.1.packages)
    (hsources : package.sources ≠ []) (hname : package.name = .text name)
    (hr : Half.build s = .ok () s') : s'.1.archive? package.name = .ok (some (s.1.archiveOf name)) := by
  have hlookup := (lookup_build hr).2 name
  rw [if_pos ⟨package, hp, by rw [hname]; rfl, hsources⟩] at hlookup
  rw [hname]
  exact congrArg Except.ok hlookup

/-- A package with sources has its archive once the half is built. -/
theorem mem_shelf_of_build {package : Package} (hp : package ∈ s.1.packages)
    (hsources : package.sources ≠ []) (hpath : s.1.archivePath package.name = .ok path)
    (hr : Half.build s = .ok () s') : path ∈ s'.1.shelf.map (·.2) := by
  obtain ⟨⟨archives, hbuilt⟩, hlookup⟩ := lookup_build hr
  obtain ⟨name, htext, rfl⟩ := archivePath_eq_ok_iff.1 hpath
  refine List.mem_map.2 ⟨(name, s.1.archiveOf name), List.mem_filterMap.2 ⟨package, ?_, ?_⟩, rfl⟩
  · rw [hbuilt]
    exact hp
  · unfold entry?
    rw [htext, Option.bind_some, hlookup, if_pos ⟨package, hp, htext, hsources⟩]
    rfl

/-- The archives for a list of packages, in their order: every package has that of its name, when
some package of the name has sources. -/
def stock (h : Half) (packages : List Package) : List (Text × Path) :=
  packages.filterMap fun p => p.name.text?.bind fun name =>
    if Yields packages name then some (name, h.archiveOf name) else none

/-- A half that is built for the first time has the archives of its packages, and no others. -/
theorem shelf_of_build (hnew : s.1.archives = []) (hr : Half.build s = .ok () s') :
    (∃ archives, s'.1 = { s.1 with archives }) ∧ s'.1.shelf = s.1.stock s.1.packages := by
  obtain ⟨⟨archives, hbuilt⟩, hlookup⟩ := lookup_build hr
  have hpackages : s'.1.packages = s.1.packages := by rw [hbuilt]
  refine ⟨⟨archives, hbuilt⟩, ?_⟩
  rw [shelf, stock, hpackages]
  refine List.filterMap_congr fun p _ => congrArg (Option.bind p.name.text?) (funext fun name => ?_)
  rw [hlookup, hnew]
  split <;> rfl

end Half
end DualImage
