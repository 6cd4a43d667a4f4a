import DualImage.Proofs.Compiler.Frame
import DualImage.Proofs.ObjectName

/-! Where a half puts what it makes. Nothing but the loader image itself goes where the loader image
goes. -/
namespace DualImage
open DualImage.Path (IsPart)

/-- The copy of the linked loader that a build in this directory makes. -/
def Half.imagePath (dir : Path) : Path := (dir.child "loader").child "loader_rom.elf"

/-- No flag redirects the compiler, and the sources could have been read. -/
structure Package.Orderly (p : Package) : Prop where
  flags : Compiler.Undirected p.flags
  sources : ∀ s ∈ p.sources, s.Plain

/-- A half of a build whose directory keeps clear of the loader image in it. -/
structure Half.Orderly (h : Half) : Prop where
  name : h.name = "app" ∨ h.name = "loader"
  plain : h.buildDir.Plain
  misses : h.buildDir.Misses (Half.imagePath h.buildDir)
  flags : Compiler.Undirected h.compiler.compileFlags
  packages : ∀ p ∈ h.packages, p.Orderly

namespace Half
variable {h : Half} {dir : Path}

theorem imagePath_eq (dir : Path) :
    imagePath dir =
      ⟨dir.anchor, dir.parts ++ [("loader" : Text)] ++ [("loader_rom.elf" : Text)]⟩ := by
  rw [imagePath, Path.child_of_isPart (t := "loader") (by decide),
    Path.child_of_isPart (t := "loader_rom.elf") (by decide)]

theorem name_below {a b : Text} (hb : IsPart b) : ((dir.child a).child b).name = b := by
  rw [Path.child_of_isPart hb]
  simp [Path.name]

/-- Two levels below a directory, under names that lead there. -/
theorem place_below {a b : String} (ha : IsPart (a : Text) ∧ (a : Text) ≠ "..")
    (hb : IsPart (b : Text) ∧ (b : Text) ≠ "..") (here : Place) :
    ((dir.child a).child b).place here = dir.place here ++ [(a : Text)] ++ [(b : Text)] := by
  rw [Path.child_of_isPart ha.1, Path.child_of_isPart hb.1, Path.place_concat _ hb.1 hb.2,
    Path.place_concat dir ha.1 ha.2, FileName.canonical_ofString, FileName.canonical_ofString]

theorem place_ne_of_name {a b a' b' : String} (ha : IsPart (a : Text) ∧ (a : Text) ≠ "..")
    (hb : IsPart (b : Text) ∧ (b : Text) ≠ "..") (ha' : IsPart (a' : Text) ∧ (a' : Text) ≠ "..")
    (hb' : IsPart (b' : Text) ∧ (b' : Text) ≠ "..") (hne : (b : Text) ≠ b') (here : Place) :
    ((dir.child a).child b).place here ≠ ((dir.child a').child b').place here := by
  rw [place_below ha hb, place_below ha' hb']
  intro h
  exact hne (List.singleton_inj.1 (List.append_inj' h rfl).2)

/-- What is written beside a binary. -/
theorem beside_below {a b ending : String} (longer : String) (hb : IsPart (b : Text))
    (hlong : IsPart (longer : Text)) (hname : (b : Text) ++ (ending : Text) = longer) {record : Path}
    (h : Compiler.beside ((dir.child a).child b) ending = .ok record) :
    record = (dir.child a).child longer := by
  obtain ⟨-, rfl⟩ := Compiler.beside_eq_ok h
  rw [Path.child_of_isPart hb, Path.child_of_isPart hlong, List.dropLast_concat, Path.name,
    List.getLast?_concat, Option.getD_some, hname]

theorem place_imagePath (dir : Path) (here : Place) :
    (imagePath dir).place here =
      dir.place here ++ [("loader" : Text)] ++ [("loader_rom.elf" : Text)] :=
  place_below (by decide) (by decide) here

/-- The loader image is two levels below the directory of the build. -/
private theorem ne_place_of_length {place here : Place}
    (h : place.length ≠ (dir.place here).length + 2) : place ≠ (imagePath dir).place here := by
  rintro rfl
  rw [place_imagePath] at h
  simp at h

private theorem ne_place_of_name {place here : Place} {name : Text} (h : name ≠ "loader_rom.elf") :
    place ++ [name] ≠ (imagePath dir).place here := by
  rw [place_imagePath]
  intro heq
  have hlast := congrArg List.getLast? heq
  rw [List.getLast?_concat, List.getLast?_concat] at hlast
  exact h (Option.some.inj hlast)

private theorem isPart_name (hname : h.name = "app" ∨ h.name = "loader") :
    IsPart (h.name : Text) ∧ (h.name : Text) ≠ ".." := by
  rcases hname with hname | hname <;> rw [hname] <;> decide

theorem directory_eq (hname : h.name = "app" ∨ h.name = "loader") :
    h.directory = ⟨h.buildDir.anchor, h.buildDir.parts ++ [(h.name : Text)]⟩ ∧
      ∀ here, h.directory.place here = h.buildDir.place here ++ [(h.name : Text)] := by
  have hpart := isPart_name hname
  have heq : h.directory = ⟨h.buildDir.anchor, h.buildDir.parts ++ [(h.name : Text)]⟩ :=
    Path.child_of_isPart hpart.1 _
  refine ⟨heq, fun here => ?_⟩
  rw [heq, Path.place_concat _ hpart.1 hpart.2, FileName.canonical_ofString]

/-- One component below the directory of the build is still above the loader image. -/
private theorem misses_one_below (hh : h.Orderly) {part : Text} (hpart : IsPart part)
    (hdots : part ≠ "..") :
    Path.Misses ⟨h.buildDir.anchor, h.buildDir.parts ++ [part]⟩ (imagePath h.buildDir) :=
  hh.misses.concat hpart hdots fun _ => ne_place_of_length (by simp)

theorem misses_directory (hh : h.Orderly) : h.directory.Misses (imagePath h.buildDir) := by
  rw [(directory_eq hh.name).1]
  exact misses_one_below hh (isPart_name hh.name).1 (isPart_name hh.name).2

theorem misses_parent_imagePath (hh : h.Orderly) :
    (imagePath h.buildDir).parent.Misses (imagePath h.buildDir) := by
  rw [imagePath_eq, Path.parent, List.dropLast_concat, ← imagePath_eq]
  exact misses_one_below hh (by decide) (by decide)

private theorem length_le_foldl_enter {parts : List Text} (h : (".." : Text) ∉ parts) (place : Place) :
    place.length ≤ (parts.foldl Path.enter place).length := by
  induction parts generalizing place with
  | nil => exact Nat.le_refl _
  | cons part rest ih =>
    obtain ⟨hpart, hrest⟩ := not_or.1 (List.mem_cons.not.1 h)
    refine Nat.le_trans ?_ (ih hrest _)
    unfold Path.enter
    rw [if_neg (Ne.symm hpart)]
    split <;> simp

/-- A directory that is never left upwards keeps clear of what is deeper in it. -/
theorem misses_imagePath (h : (".." : Text) ∉ dir.parts) : dir.Misses (imagePath dir) := by
  intro here parts hparts
  have hshort : (parts.foldl Path.enter (dir.start here)).length ≤ (dir.place here).length := by
    obtain ⟨tail, htail⟩ := hparts
    rw [Path.place, ← htail, List.foldl_append]
    refine length_le_foldl_enter (fun hmem => h ?_) _
    rw [← htail]
    exact List.mem_append_right _ hmem
  refine ⟨ne_place_of_length (by omega), ne_place_of_length ?_⟩
  rw [List.length_dropLast]
  omega

/-- A name in the directory of a half, other than the loader image's. -/
theorem misses_below (hh : h.Orderly) {part : Text} (hpart : IsPart part) (hdots : part ≠ "..")
    (hne : FileName.canonical part ≠ "loader_rom.elf") :
    (h.directory.child part).Misses (imagePath h.buildDir) := by
  rw [Path.child_of_isPart hpart]
  exact (misses_directory hh).concat hpart hdots fun _ => ne_place_of_name hne

/-- Deeper in the directory of a half any name will do. -/
theorem misses_deeper (hh : h.Orderly) {name part : Text} (hname : IsPart name)
    (hdots : name ≠ "..") (hne : FileName.canonical name ≠ "loader_rom.elf") (hpart : IsPart part)
    (hpart' : part ≠ "..") :
    ((h.directory.child name).child part).Misses (imagePath h.buildDir) := by
  rw [Path.child_of_isPart hpart]
  refine (misses_below hh hname hdots hne).concat hpart hpart' fun here => ?_
  rw [Path.child_of_isPart hname, Path.place_concat _ hname hdots, (directory_eq hh.name).2]
  exact ne_place_of_length (by simp)

theorem slash_notMem_of_fileName {package : Document} {t : Text}
    (ht : fileName package = .ok t) : CodePoint.character '/' ∉ t.codes := by
  unfold fileName Package.fileName? at ht
  cases htext : package.text? with
  | none =>
    rw [htext] at ht
    cases ht
  | some name =>
    rw [htext] at ht
    cases ht
    intro hmem
    obtain ⟨c, -, hc⟩ := List.mem_map.1 hmem
    split at hc
    · exact absurd hc (by decide)
    · next hne => exact hne hc

/-- An archive lies in the directory for archives, under the name of its package. -/
theorem exists_name_of_archivePath {package : Document} {path : Path}
    (hpath : h.archivePath package = .ok path) : ∃ t : Text, fileName package = .ok t ∧
      IsPart (t ++ .ofChars ['.', 'a']) ∧ t ++ .ofChars ['.', 'a'] ≠ ".." ∧
        path = (h.directory.child "lib").child (t ++ .ofChars ['.', 'a']) := by
  obtain ⟨t, ht, hpath⟩ := Except.bind_eq_ok_iff.1 hpath
  cases hpath
  obtain ⟨hpart, hdots⟩ := Path.isPart_append (slash_notMem_of_fileName ht) (c := 'a') (by decide)
  exact ⟨t, ht, hpart, hdots, rfl⟩

theorem archivePath_spec (hh : h.Orderly) {package : Document} {path : Path}
    (hpath : h.archivePath package = .ok path) :
    path.Plain ∧ path.Misses (imagePath h.buildDir) := by
  obtain ⟨t, -, hpart, hdots, rfl⟩ := exists_name_of_archivePath hpath
  have hplain : h.directory.Plain := hh.plain.child _
  exact ⟨(hplain.child _).child _, misses_deeper hh (by decide) (by decide)
    (by rw [FileName.canonical_ofString]; decide) hpart hdots⟩

theorem objectDir_spec (hh : h.Orderly) {package : Document} {dir : Path}
    (hdir : h.objectDir package = .ok dir) :
    dir.Plain ∧ dir.Misses (imagePath h.buildDir) := by
  obtain ⟨t, ht, hdir⟩ := Except.bind_eq_ok_iff.1 hdir
  cases hdir
  have hplain : h.directory.Plain := hh.plain.child _
  refine ⟨(hplain.child _).child _, ?_⟩
  have hobj : FileName.canonical ("obj" : Text) ≠ "loader_rom.elf" := by
    rw [FileName.canonical_ofString]
    decide
  have hbase := misses_below hh (show IsPart "obj" by decide) (by decide) hobj
  by_cases hpart : IsPart t
  · by_cases hdots : t = ".."
    · subst hdots
      rw [Path.child_of_isPart (t := "..") (by decide)]
      refine hbase.step fun here => ?_
      have hplace : Path.enter ((h.directory.child "obj").place here) ".." =
          h.directory.place here := by
        rw [Path.child_of_isPart (t := "obj") (by decide), Path.enter, if_neg (by decide),
          if_pos rfl, Path.place_concat _ (by decide) (by decide), List.dropLast_concat]
      rw [hplace]
      exact (misses_directory hh).place_ne here
    · exact misses_deeper hh (by decide) (by decide) hobj hpart hdots
  · have hnone : Path.ofText t = ⟨.relative, []⟩ := by
      have hcases : t.codes = [] ∨ t = "." := by
        by_contra hno
        obtain ⟨hempty, hdot⟩ := not_or.1 hno
        exact hpart ⟨hempty, hdot, slash_notMem_of_fileName ht⟩
      rcases hcases with hempty | rfl
      · obtain rfl : t = ⟨[]⟩ := congrArg Text.mk hempty
        rfl
      · rfl
    rw [Path.child, hnone, Path.join_relative, List.append_nil]
    exact hbase

theorem objectPaths_spec {sources objects : List Path} {object : Path} {objectDir : Path}
    (hplain : objectDir.Plain) (hdir : objectDir.Misses (imagePath dir))
    (hsources : ∀ s ∈ sources, s.Plain) (hobjects : objectPaths? sources objectDir = some objects)
    (ho : object ∈ objects) : object.Plain ∧ object.Misses (imagePath dir) := by
  obtain ⟨stem, hpart, hdots, rfl⟩ := exists_stem_of_objectPaths hsources hobjects ho
  refine ⟨hplain.child _, ?_⟩
  rw [Path.child_of_isPart hpart]
  refine hdir.concat hpart hdots fun here => ne_place_of_name ?_
  rw [← FileName.canonical_ofString "loader_rom.elf"]
  have hending : FileName.bytes? ".o" = some [46, 111] := by decide
  have himage : FileName.bytes? "loader_rom.elf" =
      some [108, 111, 97, 100, 101, 114, 95, 114, 111, 109, 46, 101, 108, 102] := by decide
  exact FileName.canonical_append_ne_of_suffix stem hending himage (by decide)

/-- The binary of a half, with the record of the command that linked it. -/
theorem binary_spec (hh : h.Orderly) :
    h.binary.Plain ∧ h.binary.Misses (imagePath h.buildDir) ∧
      ∀ record, Compiler.beside h.binary ".cmd" = .ok record →
        record.Misses (imagePath h.buildDir) := by
  have hplain : h.directory.Plain := hh.plain.child _
  obtain ⟨name, longer, hbinary, hlonger, hname, hlong⟩ : ∃ name longer : String,
      h.binary = h.directory.child name ∧ (name : Text) ++ ".cmd" = longer ∧
        (IsPart (name : Text) ∧ (name : Text) ≠ ".." ∧ (name : Text) ≠ "loader_rom.elf") ∧
          IsPart (longer : Text) ∧ (longer : Text) ≠ ".." ∧ (longer : Text) ≠ "loader_rom.elf" := by
    unfold binary
    rcases hh.name with happ | hloader
    · rw [happ]
      exact ⟨"app.elf", "app.elf.cmd", rfl, rfl, by decide, by decide⟩
    · rw [hloader]
      exact ⟨"loader.elf", "loader.elf.cmd", rfl, rfl, by decide, by decide⟩
  have hmisses : ∀ s : String, (IsPart (s : Text) ∧ (s : Text) ≠ ".." ∧
      (s : Text) ≠ "loader_rom.elf") → (h.directory.child s).Misses (imagePath h.buildDir) := by
    rintro s ⟨hpart, hdots, hne⟩
    refine misses_below hh hpart hdots ?_
    rw [FileName.canonical_ofString]
    exact hne
  rw [hbinary]
  refine ⟨hplain.child _, hmisses name hname, fun record hrecord => ?_⟩
  obtain ⟨-, rfl⟩ := Compiler.beside_eq_ok hrecord
  have hbeside := hmisses longer hlong
  rw [Path.child_of_isPart hlong.1] at hbeside
  rw [Path.child_of_isPart hname.1, List.dropLast_concat, Path.name, List.getLast?_concat,
    Option.getD_some, hlonger]
  exact hbeside

theorem loaderImage_eq (hname : h.name = "loader") : h.loaderImage = imagePath h.buildDir := by
  rw [loaderImage, directory, hname, imagePath]
  rfl

end Half
end DualImage
