import DualImage.Proofs.Compiler.Packing
import DualImage.Proofs.Half.Places
import Mathlib.Data.List.Pairwise

/-! Which packages have an archive and objects of their own, and what a build puts into an archive of
one package alone. Slashes of a name become underscores, so names can be apart and their files not. -/
namespace DualImage
open DualImage.Path (IsPart)

namespace Package

/-- What a name becomes in the name of a file. -/
def flat (name : Text) : Text := (fileName? (.text name)).getD ""

theorem fileName_text (name : Text) : Half.fileName (.text name) = .ok (flat name) := rfl

theorem slash_notMem_flat (name : Text) : CodePoint.character '/' ∉ (flat name).codes :=
  Half.slash_notMem_of_fileName (fileName_text name)

/-- A name that is written without surrogates goes to a file that is. -/
theorem canonical_flat (s : String) : FileName.canonical (flat s) = flat s := by
  obtain ⟨s', hs'⟩ : ∃ s' : String, flat s = s' := by
    refine Text.exists_string fun c hc => ?_
    obtain ⟨c', hc', rfl⟩ := List.mem_map.1 hc
    obtain ⟨x, -, rfl⟩ := List.mem_map.1 hc'
    split
    · exact ⟨_, rfl⟩
    · exact ⟨x, rfl⟩
  rw [hs', FileName.canonical_ofString]

/-- The name leads nowhere. -/
def Idle (name : Text) : Prop := name = "" ∨ name = "."

instance : DecidablePred Idle := fun _ => inferInstanceAs (Decidable (_ ∨ _))

theorem flat_eq_self {name : Text} (h : Idle (flat name)) : flat name = name :=
  (Option.some.inj (Half.text?_of_fileName (fileName_text name) h)).symm

theorem idle_flat_iff {name : Text} : Idle (flat name) ↔ Idle name := by
  constructor
  · intro h
    rw [← flat_eq_self h]
    exact h
  · rintro (rfl | rfl)
    · exact .inl rfl
    · exact .inr rfl

theorem isPart_flat {name : Text} (h : ¬ Idle name) : IsPart (flat name) := by
  obtain ⟨hempty, hdot⟩ := not_or.1 (idle_flat_iff.not.2 h)
  exact ⟨fun hcodes => hempty (congrArg Text.mk hcodes), hdot, slash_notMem_flat name⟩

end Package

namespace Half
open Package (flat Idle)
variable {h h' : Half} {w w' : World} {names : List Text} {name name' : Text}

/-- Where the objects of a package of this name go. -/
def objectDirOf (h : Half) (name : Text) : Path := (h.directory.child "obj").child (flat name)

/-- Packages have one archive exactly if their names are the same up to slashes and underscores. -/
theorem archiveOf_eq_iff : h.archiveOf name = h.archiveOf name' ↔ flat name = flat name' := by
  constructor
  · intro heq
    have hname (t : Text) : (h.archiveOf t).name = flat t ++ .ofChars ['.', 'a'] := by
      obtain ⟨hpart, -⟩ := Path.isPart_append (Package.slash_notMem_flat t) (c := 'a') (by decide)
      exact name_below hpart
    have hcodes := congrArg (fun p : Path => p.name.codes) heq
    simp only [hname] at hcodes
    exact congrArg Text.mk (List.append_cancel_right hcodes)
  · intro heq
    exact congrArg (fun t => (h.directory.child "lib").child (t ++ Symbol.archiveSuffix)) heq

private theorem objectDirOf_of_idle (hname : Idle name) : h.objectDirOf name = h.directory.child "obj" := by
  have hnowhere : Path.ofText (flat name) = ⟨.relative, []⟩ := by
    rcases hname with rfl | rfl <;> rfl
  rw [objectDirOf, Path.child, hnowhere, Path.join_relative, List.append_nil]

private theorem objectDirOf_of_not_idle (hname : ¬ Idle name) : h.objectDirOf name =
    ⟨(h.directory.child "obj").anchor, (h.directory.child "obj").parts ++ [flat name]⟩ :=
  Path.child_of_isPart (Package.isPart_flat hname) _

/-- Their objects go into one directory also if neither of the names leads anywhere. -/
theorem objectDirOf_eq_iff :
    h.objectDirOf name = h.objectDirOf name' ↔ flat name = flat name' ∨ Idle name ∧ Idle name' := by
  constructor
  · intro heq
    by_cases hidle : Idle name <;> by_cases hidle' : Idle name'
    · exact .inr ⟨hidle, hidle'⟩
    · rw [objectDirOf_of_idle hidle, objectDirOf_of_not_idle hidle'] at heq
      have hlength := congrArg (fun p : Path => p.parts.length) heq
      simp at hlength
    · rw [objectDirOf_of_not_idle hidle, objectDirOf_of_idle hidle'] at heq
      have hlength := congrArg (fun p : Path => p.parts.length) heq
      simp at hlength
    · rw [objectDirOf_of_not_idle hidle, objectDirOf_of_not_idle hidle'] at heq
      have hparts := congrArg Path.parts heq
      exact .inl (List.singleton_inj.1 (List.append_cancel_left hparts))
  · rintro (heq | ⟨hidle, hidle'⟩)
    · rw [objectDirOf, objectDirOf, heq]
    · rw [objectDirOf_of_idle hidle, objectDirOf_of_idle hidle']

theorem nodup_archives_iff : (names.map h.archiveOf).Nodup ↔ (names.map flat).Nodup := by
  rw [List.Nodup, List.Nodup, List.pairwise_map, List.pairwise_map]
  exact List.Pairwise.iff_of_mem fun _ _ => archiveOf_eq_iff.not

theorem nodup_objectDirs_iff : (names.map h.objectDirOf).Nodup ↔
    (names.map flat).Nodup ∧ ¬ (("" : Text) ∈ names ∧ ("." : Text) ∈ names) := by
  have hsplit : (names.map h.objectDirOf).Nodup ↔
      (names.map flat).Nodup ∧ names.Pairwise fun a b => ¬ (Idle a ∧ Idle b) := by
    rw [List.Nodup, List.Nodup, List.pairwise_map, List.pairwise_map, ← List.pairwise_and_iff]
    exact List.Pairwise.iff_of_mem fun _ _ => objectDirOf_eq_iff.not.trans not_or
  rw [hsplit]
  refine and_congr_right fun hflat => ⟨?_, fun hnames => ?_⟩
  · rintro hpairs ⟨hempty, hdot⟩
    have : Std.Symm fun a b : Text => ¬ (Idle a ∧ Idle b) := ⟨fun _ _ h h' => h h'.symm⟩
    exact hpairs.forall hempty hdot (by decide) ⟨.inl rfl, .inr rfl⟩
  · refine (List.pairwise_map.1 hflat).imp_of_mem fun {a b} ha hb hne => ?_
    rintro ⟨rfl | rfl, rfl | rfl⟩
    · exact hne rfl
    · exact hnames ⟨ha, hb⟩
    · exact hnames ⟨hb, ha⟩
    · exact hne rfl

/-- The half assigns these objects and this archive to the package. -/
structure Assigns (h : Half) (package : Package) (objects : List Path) (archive : Path) : Prop where
  objects : ∃ objectDir, h.objectDir package.name = .ok objectDir ∧
    objectPaths? package.sources objectDir = some objects
  archive : h.archivePath package.name = .ok archive

theorem Assigns.unique {package : Package} {objects objects' : List Path} {archive archive' : Path}
    (hassigns : h.Assigns package objects archive) (hassigns' : h.Assigns package objects' archive') :
    objects = objects' ∧ archive = archive' := by
  obtain ⟨⟨objectDir, hdir, hobjects⟩, hpath⟩ := hassigns
  obtain ⟨⟨objectDir', hdir', hobjects'⟩, hpath'⟩ := hassigns'
  cases hdir.symm.trans hdir'
  exact ⟨Option.some.inj (hobjects.symm.trans hobjects'), Except.ok.inj (hpath.symm.trans hpath')⟩

/-- The command makes one of the objects, or the archive of them all. -/
inductive Serves (h : Half) (package : Package) (objects : List Path) (archive : Path) : Command → Prop
  | compile {pair command} (hmem : pair ∈ package.sources.zip objects)
    (hcommand : h.compiler.compileCommand package h.features pair.1 pair.2 = .ok command) :
    Serves h package objects archive command
  | pack {tool} (htool : h.compiler.tool "ar" = .ok tool) :
    Serves h package objects archive (tool :: "rcs" :: archive.toText :: objects.map Path.toText)

/-- The command makes something of one of the packages. -/
def ServesSome (h : Half) (c : Command) : Prop :=
  ∃ package ∈ h.packages, ∃ objects archive,
    h.Assigns package objects archive ∧ h.Serves package objects archive c

/-- What the started commands have put at the places of the objects and the archive comes from the sources
and the objects of the package. -/
structure FromOwn (h : Half) (package : Package) (objects : List Path) (archive : Path)
    (started : List Command) (w w' : World) : Prop where
  packed : ∀ c ∈ started, c.Writes w.disk.here (archive.place w.disk.here) →
    c.PacksInto archive objects
  compiled : ∀ object ∈ objects, ∀ c ∈ started, c.Writes w.disk.here (object.place w.disk.here) →
    ∃ pair ∈ package.sources.zip objects,
      h.compiler.compileCommand package h.features pair.1 pair.2 = .ok c
  kept : (∀ c ∈ started, ¬ c.Writes w.disk.here (archive.place w.disk.here)) →
    w'.disk.fileAt? archive = w.disk.fileAt? archive

section
variable (hh : h.Regular)
include hh

/-- All that a build starts makes something of one of its packages. -/
theorem progressed_of_build (hw : w.disk.Grounded) (htools : w.tools.Honest)
    (hr : Half.build (h, w) = .ok () (h', w')) : Progressed h.ServesSome w w' := by
  obtain ⟨v, ⟨console, rfl⟩, hr⟩ := build_eq_ok hr
  refine (Action.forM_preserves (I := fun s => (∃ archives, s.1 = { h with archives }) ∧
    Progressed h.ServesSome w s.2) ?_ ⟨⟨h.archives, rfl⟩, .of_disk rfl rfl (.refl hw)⟩ hr).2
  rintro package hp ⟨_, t⟩ s' ⟨⟨archives, rfl⟩, hprogressed⟩ hr
  have hstep := of_buildPackage_of (course_progress h.ServesSome) ?compile ?archive hr
  case compile =>
    intro objectDir objects hdir hobjects pair hpair command hcommand
    obtain ⟨archive, hpath⟩ := exists_archivePath hdir
    exact ⟨package, hp, objects, archive, ⟨⟨objectDir, hdir, hobjects⟩, hpath⟩, .compile hpair hcommand⟩
  case archive =>
    intro objectDir objects path hdir hobjects hpath
    exact ⟨hh.plain_archivePath hpath, fun tool htool =>
      ⟨package, hp, objects, path, ⟨⟨objectDir, hdir, hobjects⟩, hpath⟩, .pack htool⟩⟩
  obtain ⟨⟨archives', hsame⟩, hstep⟩ := hstep
  exact ⟨⟨archives', hsame⟩, hprogressed.trans
    (hstep hprogressed.disk.grounded (hprogressed.tools ▸ htools))⟩

omit hh in
theorem Assigns.makes {package : Package} {objects : List Path} {archive : Path} {pair : Path × Path}
    (hp : package ∈ h.packages) (hassigns : h.Assigns package objects archive)
    (hpair : pair ∈ package.sources.zip objects) : h.Makes pair.1 pair.2 archive := by
  obtain ⟨⟨objectDir, hdir, hobjects⟩, hpath⟩ := hassigns
  exact ⟨package, hp, hpath, objectDir, objects, hdir, hobjects, hpair⟩

/-- Where a command for a package writes. -/
theorem Serves.writes_cases {package : Package} {objects : List Path} {archive : Path} {c : Command}
    {here place : Place} (hp : package ∈ h.packages) (hassigns : h.Assigns package objects archive)
    (hserves : h.Serves package objects archive c) (hwrites : c.Writes here place) :
    (∃ pair ∈ package.sources.zip objects, pair.2.place here = place ∧
      h.compiler.compileCommand package h.features pair.1 pair.2 = .ok c) ∨
    archive.place here = place ∧ c.PacksInto archive objects := by
  obtain ⟨q, hq, rfl⟩ := hwrites
  cases hserves with
  | @compile pair _ hmem hcommand =>
    obtain ⟨objectDir, hdir, hobjects⟩ := hassigns.objects
    cases hq.symm.trans (hh.output?_compile hp hdir hobjects (List.of_mem_zip hmem).2 hcommand)
    exact .inl ⟨pair, hmem, rfl, hcommand⟩
  | pack htool =>
    obtain ⟨before, -, rfl⟩ := Compiler.tool_eq_ok_iff.1 htool
    rw [Command.output?_ar] at hq
    cases hq
    have hback : Path.ofText archive.toText = archive := (hh.plain_archivePath hassigns.archive).readBack
    exact .inr ⟨by rw [hback], rfl⟩

end

section
variable (hnames : h.packages.map (·.name) = names.map .text)
include hnames

private theorem not_yields (hidle : ¬ (("" : Text) ∈ names ∧ ("." : Text) ∈ names)) :
    ¬ (Yields h.packages "" ∧ Yields h.packages ".") := by
  have hmem {t : Text} : Yields h.packages t → t ∈ names := by
    rintro ⟨p, hp, htext, -⟩
    obtain ⟨t', ht', hname⟩ := List.mem_map.1 (hnames ▸ List.mem_map_of_mem hp)
    rw [← hname] at htext
    cases htext
    exact ht'
  exact fun ⟨hempty, hdot⟩ => hidle ⟨hmem hempty, hmem hdot⟩

variable (hstrings : ∀ name ∈ names, ∃ s : String, name = s) (hflat : (names.map flat).Nodup)
include hstrings hflat

/-- Packages whose archives lie in one place are the same. -/
private theorem package_eq {p p' : Package} {path path' : Path} {here : Place} (hp : p ∈ h.packages)
    (hp' : p' ∈ h.packages) (hpath : h.archivePath p.name = .ok path)
    (hpath' : h.archivePath p'.name = .ok path') (hplace : path.place here = path'.place here) :
    p = p' := by
  have hname {p : Package} (hp : p ∈ h.packages) : ∃ s : String, p.name = .text s := by
    obtain ⟨t, ht, hname⟩ := List.mem_map.1 (hnames ▸ List.mem_map_of_mem hp)
    obtain ⟨s, rfl⟩ := hstrings t ht
    exact ⟨s, hname.symm⟩
  have hfiles : (h.packages.map fun p => (Package.fileName? p.name).getD "").Nodup := by
    have hmap := congrArg (List.map fun d => (Package.fileName? d).getD "") hnames
    rw [List.map_map, List.map_map] at hmap
    exact hmap ▸ hflat
  obtain ⟨t, t', ht, ht', hcanonical⟩ := canonical_eq_of_archive_place hpath hpath' hplace
  obtain ⟨s, hs⟩ := hname hp
  obtain ⟨s', hs'⟩ := hname hp'
  rw [hs] at ht
  rw [hs'] at ht'
  cases ht
  cases ht'
  refine List.inj_on_of_nodup_map hfiles hp hp' ?_
  rw [hs, hs']
  exact (Package.canonical_flat s).symm.trans (hcanonical.trans (Package.canonical_flat s'))

/-- Where packages are apart, a build puts into each archive what belongs to its package alone. -/
private theorem fromOwn_of_progressed (hh : h.Regular)
    (hidle : ¬ (("" : Text) ∈ names ∧ ("." : Text) ∈ names)) {package : Package} {objects : List Path}
    {archive : Path} {started : List Command} (hp : package ∈ h.packages)
    (hassigns : h.Assigns package objects archive) (hserves : ∀ c ∈ started, h.ServesSome c)
    (hadvances : Disk.Advances (Written w.disk.here started) w.disk w'.disk) :
    h.FromOwn package objects archive started w w' := by
  have harchive {path : Path} {document : Document} (hpath : h.archivePath document = .ok path) :=
    Path.endsIn_place (name_archivePath hpath) (by decide) w.disk.here
  -- an archive and an object differ by the last letter
  have happart {p p' : Package} {os os' : List Path} {path path' : Path} {pair : Path × Path}
      (hp : p ∈ h.packages) (h₁ : h.Assigns p os path) (h₂ : h.Assigns p' os' path')
      (hpair : pair ∈ p.sources.zip os) : pair.2.place w.disk.here ≠ path'.place w.disk.here := by
    intro hplace
    have hobject := (h₁.makes hp hpair).endsIn_object hh w.disk.here
    rw [hplace] at hobject
    exact absurd (hobject.byte_eq (harchive h₂.archive) rfl rfl) (by decide)
  refine ⟨fun c hc hwrites => ?_, fun object ho c hc hwrites => ?_, fun hquiet => ?_⟩
  · obtain ⟨p, hp', objects', archive', hassigns', hserves⟩ := hserves c hc
    rcases hserves.writes_cases hh hp' hassigns' hwrites with ⟨pair, hpair, hplace, -⟩ | ⟨hplace, hpacks⟩
    · exact absurd hplace (happart hp' hassigns' hassigns hpair)
    · obtain rfl := package_eq hnames hstrings hflat hp' hp hassigns'.archive hassigns.archive hplace
      obtain ⟨rfl, rfl⟩ := hassigns.unique hassigns'
      exact hpacks
  · obtain ⟨p, hp', objects', archive', hassigns', hserves⟩ := hserves c hc
    obtain ⟨objectDir, -, hobjects⟩ := hassigns.objects
    obtain ⟨source, hmem⟩ := exists_source_of_objectPaths hobjects ho
    rcases hserves.writes_cases hh hp' hassigns' hwrites with
      ⟨pair, hpair, hplace, hcommand⟩ | ⟨hplace, -⟩
    · have hplaces := Makes.archive_place w.disk.here hh (not_yields hnames hidle)
        (hassigns'.makes hp' hpair) (hassigns.makes hp hmem) hplace
      obtain rfl := package_eq hnames hstrings hflat hp' hp hassigns'.archive hassigns.archive hplaces
      obtain ⟨rfl, rfl⟩ := hassigns.unique hassigns'
      exact ⟨pair, hpair, hcommand⟩
    · exact absurd hplace.symm (happart hp hassigns hassigns' hmem)
  · rw [Disk.fileAt?, Disk.fileAt?, hadvances.here]
    cases hadvances.turn (archive.place w.disk.here) with
    | same hsame => rw [FileTree.file?, FileTree.file?, hsame]
    | directory hbefore hdir =>
      rw [FileTree.file?_of_isDirectory hdir]
      rcases hbefore with hnone | hdir
      · rw [FileTree.file?, hnone]
        rfl
      · exact (FileTree.file?_of_isDirectory hdir).symm
    | renewed _ _ _ _ _ _ hwritten =>
      rcases hwritten with hrecord | ⟨c, hc, hwrites⟩
      · exact absurd hrecord ((harchive hassigns.archive).not_isRecord rfl (by decide))
      · exact absurd hwrites (hquiet c hc)

end

/-- A build assigns to each of its packages an archive and a directory for objects. The archives are
different ones exactly if the names are so without the difference of slash and underscore, and the
directories if in addition not one name is empty and another a dot. Where both are different, what a
build records for a package has been packed of its own objects only, as far as this build has packed
it. -/
theorem packages_apart (hh : h.Regular) (hnames : h.packages.map (·.name) = names.map .text) :
    ∃ archives objectDirs, h.packages.mapM (fun p => h.archivePath p.name) = .ok archives ∧
      h.packages.mapM (fun p => h.objectDir p.name) = .ok objectDirs ∧
      (archives.Nodup ↔ (names.map flat).Nodup) ∧
      (objectDirs.Nodup ↔
        (names.map flat).Nodup ∧ ¬ (("" : Text) ∈ names ∧ ("." : Text) ∈ names)) ∧
      ((∀ name ∈ names, ∃ s : String, name = s) → archives.Nodup → objectDirs.Nodup →
        ∀ (w w' : World) (h' : Half), w.disk.Grounded → w.tools.Honest →
          Half.build (h, w) = .ok () (h', w') → ∃ started, w'.commands = w.commands ++ started ∧
            ∀ package ∈ h.packages, package.sources ≠ [] → ∃ objects archive,
              h.Assigns package objects archive ∧ h'.archive? package.name = .ok (some archive) ∧
              h.FromOwn package objects archive started w w') := by
  have hassigned {f : Document → Except Failure Path} {g : Text → Path}
      (hf : ∀ t, f (.text t) = .ok (g t)) : h.packages.mapM (fun p => f p.name) = .ok (names.map g) := by
    have hmap : (h.packages.map (·.name)).mapM f = (names.map .text).mapM f := by rw [hnames]
    rw [List.mapM_map, List.mapM_map, show f ∘ .text = fun t => pure (g t) from funext hf,
      List.mapM_pure] at hmap
    exact hmap
  refine ⟨names.map h.archiveOf, names.map h.objectDirOf, hassigned fun _ => rfl,
    hassigned fun _ => rfl, nodup_archives_iff, nodup_objectDirs_iff, ?_⟩
  intro hstrings _ hdirs w w' h' hw htools hr
  obtain ⟨hflat, hidle⟩ := nodup_objectDirs_iff.1 hdirs
  obtain ⟨-, started, hcommands, hserves, hadvances⟩ := progressed_of_build hh hw htools hr
  refine ⟨started, hcommands, fun package hp hsources => ?_⟩
  obtain ⟨name, -, hname⟩ := List.mem_map.1 (hnames ▸ List.mem_map_of_mem hp)
  obtain ⟨archives, v, t, -, hpackage, -⟩ :=
    package_of_build (course_progress Command.Builds) hh.issues hp hr
  obtain ⟨objectDir, objects, v', hdir, hcompile, -⟩ := buildPackage_eq_ok hpackage
  have hassigns : h.Assigns package objects (h.archiveOf name) :=
    ⟨⟨objectDir, hdir, (Compiler.compile_steps hcompile).1⟩, hname ▸ rfl⟩
  exact ⟨objects, h.archiveOf name, hassigns,
    archive?_of_build (s := (h, w)) hp hsources hname.symm hr,
    fromOwn_of_progressed hnames hstrings hflat hh hidle hp hassigns hserves hadvances⟩

/-- A package of this name with one source. -/
def smallPackage (name source : String) : Package :=
  ⟨.text name, [⟨.relative, [source]⟩], [], []⟩

/-- An application of two packages with these names. -/
def application (first second : String) : Half where
  name := "app"
  buildDir := ⟨.relative, ["o"]⟩
  boardName := .text "b"
  compiler := ⟨.text "", [], []⟩
  packages := [smallPackage first "x.c", smallPackage second "y.c"]
  features := []
  archives := []

private theorem regular_application (first second : String) : (application first second).Regular where
  name := .inl rfl
  plain := List.forall_mem_singleton.2 (by decide)
  flags := List.forall_mem_nil _
  packages := by
    have horderly (name : String) {source : String} (hsource : IsPart source) :
        (smallPackage name source).Orderly :=
      ⟨List.forall_mem_nil _, List.forall_mem_singleton.2 (List.forall_mem_singleton.2 hsource)⟩
    exact List.forall_mem_cons.2 ⟨horderly first (by decide),
      List.forall_mem_singleton.2 (horderly second (by decide))⟩

def unbuilt : World where
  disk := ⟨⟨[([], .directory 1), (["x.c"], .file 1 ""), (["y.c"], .file 1 "")]⟩, 1, 100, []⟩
  tools := ⟨[], []⟩
  buildDirVariable := none
  console := .ofVerbosity 0
  commands := []

/-- The half and its workspace after a build. -/
def built (h : Half) : Half × World := leaves (Half.build (h, unbuilt))

theorem packages_apart_two : ∃ objects archive,
    (application "a/b" "c").Assigns (smallPackage "a/b" "x.c") objects archive ∧
      (built (application "a/b" "c")).1.archive? (.text "a/b") = .ok (some archive) ∧
      (application "a/b" "c").FromOwn (smallPackage "a/b" "x.c") objects archive
        (built (application "a/b" "c")).2.commands unbuilt (built (application "a/b" "c")).2 := by
  have hanswer : answer? (Half.build (application "a/b" "c", unbuilt)) = some () := by decide +kernel
  have hgrounded : unbuilt.disk.Grounded := by decide +kernel
  have hflat : (["a/b", "c"].map flat).Nodup := by decide +kernel
  have hnames : (application "a/b" "c").packages.map (·.name) =
      (["a/b", "c"] : List Text).map .text := rfl
  obtain ⟨archives, objectDirs, -, -, hnodup, hnodup', hown⟩ :=
    packages_apart (regular_application "a/b" "c") hnames
  have hstrings : ∀ name ∈ (["a/b", "c"] : List Text), ∃ s : String, name = s :=
    List.forall_mem_cons.2 ⟨⟨_, rfl⟩, List.forall_mem_singleton.2 ⟨_, rfl⟩⟩
  obtain ⟨started, hcommands, hpackages⟩ := hown hstrings (hnodup.2 hflat)
    (hnodup'.2 ⟨hflat, by decide +kernel⟩) unbuilt _ _ hgrounded (by decide) (eq_ok_of_answer? hanswer)
  obtain rfl : _ = started := hcommands
  exact hpackages (smallPackage "a/b" "x.c") List.mem_cons_self (List.cons_ne_nil _ _)

def sharedArchive : Path := ⟨.relative, ["o", "app", "lib", "a_b.a"]⟩

def sharedObjectDir : Path := ⟨.relative, ["o", "app", "obj", "a_b"]⟩

/-- A slash and an underscore are one in the name of a file. The archive that is recorded for the first of
these packages has been packed of the object of the second one. -/
theorem packages_meet :
    (application "a/b" "a_b").packages.Pairwise (fun p p' => p.name ≠ p'.name) ∧
      (application "a/b" "a_b").packages.mapM (fun p => (application "a/b" "a_b").archivePath p.name) =
        .ok [sharedArchive, sharedArchive] ∧
      (application "a/b" "a_b").packages.mapM (fun p => (application "a/b" "a_b").objectDir p.name) =
        .ok [sharedObjectDir, sharedObjectDir] ∧
      answer? (Half.build (application "a/b" "a_b", unbuilt)) = some () ∧
      (built (application "a/b" "a_b")).1.archive? (.text "a/b") = .ok (some sharedArchive) ∧
      (application "a/b" "a_b").Assigns (smallPackage "a/b" "x.c") [sharedObjectDir.child "x.o"]
        sharedArchive ∧
      ¬ (application "a/b" "a_b").FromOwn (smallPackage "a/b" "x.c") [sharedObjectDir.child "x.o"]
        sharedArchive (built (application "a/b" "a_b")).2.commands unbuilt
        (built (application "a/b" "a_b")).2 := by
  have hother : ∃ c ∈ (built (application "a/b" "a_b")).2.commands,
      c.Writes unbuilt.disk.here (sharedArchive.place unbuilt.disk.here) ∧
        ¬ c.PacksInto sharedArchive [sharedObjectDir.child "x.o"] := by
    decide +kernel
  have hassigns : (application "a/b" "a_b").Assigns (smallPackage "a/b" "x.c")
      [sharedObjectDir.child "x.o"] sharedArchive :=
    ⟨⟨sharedObjectDir, rfl, by decide +kernel⟩, rfl⟩
  have hanswer : answer? (Half.build (application "a/b" "a_b", unbuilt)) = some () := by
    decide +kernel
  have hrecorded := archive?_of_build (s := (application "a/b" "a_b", unbuilt)) List.mem_cons_self
    (List.cons_ne_nil _ _) rfl (eq_ok_of_answer? hanswer)
  refine ⟨?_, rfl, rfl, hanswer, hrecorded, hassigns, fun hown => ?_⟩
  · refine List.pairwise_pair.2 fun hsame => ?_
    exact absurd (congrArg Document.text? hsame) (by decide)
  · obtain ⟨c, hc, hwrites, hpacks⟩ := hother
    exact hpacks (hown.packed c hc hwrites)

end Half
end DualImage
