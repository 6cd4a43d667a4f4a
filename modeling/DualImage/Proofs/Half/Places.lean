import DualImage.Proofs.Half.Newness

/-! Where the objects and archives of a half lie below its directory. Packages whose objects meet have
one archive, unless one of them is named by a dot and the other has no name. -/
namespace DualImage.Half
open DualImage.Path (IsPart)
variable {h : Half} {t t' : Text} {base here : Place}

/-- Below the directory of the half, where the objects of a package go by its name. Two dots lead up,
and a dot leads nowhere, as no name at all does. -/
private def objectParts (t : Text) : List Text :=
  if t = ".." then [] else if t = "" ∨ t = "." then ["obj"] else ["obj", FileName.canonical t]

private theorem place_objects (h : Half) (hslash : CodePoint.character '/' ∉ t.codes) :
    ((h.directory.child "obj").child t).place here = h.directory.place here ++ objectParts t := by
  have hobj : (h.directory.child "obj").place here = h.directory.place here ++ [("obj" : Text)] := by
    rw [Path.child_of_isPart (t := "obj") (by decide), Path.place_concat _ (by decide) (by decide),
      FileName.canonical_ofString]
  unfold objectParts
  split_ifs with hdots hnone
  · subst hdots
    rw [Path.child_of_isPart (t := "..") (by decide), Path.place_step, hobj, Path.enter,
      if_neg (by decide), if_pos rfl, List.dropLast_concat, List.append_nil]
  · have hnowhere : Path.ofText t = ⟨.relative, []⟩ := by
      rcases hnone with rfl | rfl <;> rfl
    rw [← hobj, Path.child, hnowhere, Path.join_relative, List.append_nil]
  · obtain ⟨hempty, hdot⟩ := not_or.1 hnone
    have hpart : IsPart t := ⟨fun h => hempty (congrArg Text.mk h), hdot, hslash⟩
    rw [Path.child_of_isPart hpart, Path.place_concat _ hpart hdots, hobj, List.append_assoc]
    rfl

/-- Two names lead to the same objects when they are one name to the file system, or when neither of
them leads anywhere. -/
private theorem canonical_eq_of_objectParts (h : objectParts t = objectParts t') :
    FileName.canonical t = FileName.canonical t' ∨ (t = "" ∨ t = ".") ∧ (t' = "" ∨ t' = ".") := by
  unfold objectParts at h
  split_ifs at h <;> simp_all

private theorem place_archive (h : Half) (hpart : IsPart (t ++ .ofChars ['.', 'a']))
    (hdots : t ++ .ofChars ['.', 'a'] ≠ "..") :
    ((h.directory.child "lib").child (t ++ .ofChars ['.', 'a'])).place here =
      h.directory.place here ++ [("lib" : Text), FileName.canonical t ++ .ofChars ['.', 'a']] := by
  have hfirst : ∀ b ∈ ([46, 97] : List UInt8), b.IsUTF8FirstByte :=
    List.forall_mem_cons.2 ⟨by decide, List.forall_mem_singleton.2 (by decide)⟩
  have hending : FileName.canonical (t ++ (".a" : String)) =
      FileName.canonical t ++ (".a" : String) :=
    FileName.canonical_append t (by decide) hfirst (by decide)
  rw [Path.child_of_isPart hpart, Path.place_concat _ hpart hdots,
    Path.child_of_isPart (t := "lib") (by decide), Path.place_concat _ (by decide) (by decide),
    FileName.canonical_ofString, List.append_assoc]
  exact congrArg (fun name => h.directory.place here ++ [("lib" : Text), name]) hending

theorem text?_of_fileName {document : Document} (ht : fileName document = .ok t)
    (hname : t = "" ∨ t = ".") : document.text? = some t := by
  unfold fileName Package.fileName? at ht
  cases htext : document.text? with
  | none =>
    rw [htext] at ht
    cases ht
  | some name =>
    rw [htext] at ht
    cases ht
    rcases hname with hname | hname
    · have hcodes := List.map_eq_nil_iff.1 (congrArg Text.codes hname)
      rw [hname]
      exact congrArg (fun codes => some (Text.mk codes)) hcodes
    · obtain ⟨c, hcodes, hc⟩ := List.map_eq_singleton_iff.1 (congrArg Text.codes hname)
      split at hc
      · exact absurd hc (by decide)
      · rw [hname]
        rw [hc] at hcodes
        exact congrArg (fun codes => some (Text.mk codes)) hcodes

/-- An object lies where those of its package go. -/
private theorem place_object {package : Package} {objectDir object : Path} {objects : List Path}
    (hh : h.Regular) (hp : package ∈ h.packages) (hdir : h.objectDir package.name = .ok objectDir)
    (hpaths : objectPaths? package.sources objectDir = some objects) (ho : object ∈ objects)
    (here : Place) : ∃ t name, fileName package.name = .ok t ∧
      object.place here = h.directory.place here ++ (objectParts t ++ [name]) := by
  obtain ⟨t, ht, hdir⟩ := Except.bind_eq_ok_iff.1 hdir
  cases hdir
  obtain ⟨stem, hpart, hdots, rfl⟩ :=
    exists_stem_of_objectPaths (hh.packages package hp).sources hpaths ho
  refine ⟨t, FileName.canonical (stem ++ .ofChars ['.', 'o']), ht, ?_⟩
  rw [Path.child_of_isPart hpart, Path.place_concat _ hpart hdots,
    place_objects h (slash_notMem_of_fileName ht), List.append_assoc]

/-- An archive lies among the archives, under the name of its package. -/
private theorem place_archivePath {package : Document} {path : Path}
    (hpath : h.archivePath package = .ok path) (here : Place) : ∃ t, fileName package = .ok t ∧
      path.place here =
        h.directory.place here ++ [("lib" : Text), FileName.canonical t ++ .ofChars ['.', 'a']] := by
  obtain ⟨t, ht, hpart, hdots, rfl⟩ := exists_name_of_archivePath hpath
  exact ⟨t, ht, place_archive h hpart hdots⟩

/-- Archives in one place are named alike, as far as the file system can tell. -/
theorem canonical_eq_of_archive_place {document document' : Document} {path path' : Path}
    (hpath : h.archivePath document = .ok path) (hpath' : h.archivePath document' = .ok path')
    (hplace : path.place here = path'.place here) : ∃ t t', fileName document = .ok t ∧
      fileName document' = .ok t' ∧ FileName.canonical t = FileName.canonical t' := by
  obtain ⟨t, ht, hfirst⟩ := place_archivePath hpath here
  obtain ⟨t', ht', hsecond⟩ := place_archivePath hpath' here
  rw [hfirst, hsecond] at hplace
  obtain ⟨-, hnames⟩ := List.cons.inj (List.append_cancel_left hplace)
  have hcodes := congrArg Text.codes (List.singleton_inj.1 hnames)
  exact ⟨t, t', ht, ht', congrArg Text.mk (List.append_cancel_right hcodes)⟩

/-- Halves of one build have one name when a place is in the directories of both. -/
theorem name_eq_of_below {h h' : Half} {place : Place}
    (hname : h.name = "app" ∨ h.name = "loader") (hname' : h'.name = "app" ∨ h'.name = "loader")
    (hdir : h.buildDir = h'.buildDir) (hbelow : h.directory.place here <+: place)
    (hbelow' : h'.directory.place here <+: place) : h.name = h'.name := by
  rw [(directory_eq hname).2] at hbelow
  rw [(directory_eq hname').2, ← hdir] at hbelow'
  have heq := (List.prefix_of_prefix_length_le hbelow hbelow' (by simp)).eq_of_length (by simp)
  have hparts := List.singleton_inj.1 (List.append_inj' heq rfl).2
  rcases hname with hname | hname <;> rcases hname' with hname' | hname' <;>
    rw [hname, hname'] at hparts ⊢
  · exact absurd hparts (by decide)
  · exact absurd hparts (by decide)

theorem below_object {package : Package} {objectDir object : Path} {objects : List Path}
    (hh : h.Regular) (hp : package ∈ h.packages) (hdir : h.objectDir package.name = .ok objectDir)
    (hpaths : objectPaths? package.sources objectDir = some objects) (ho : object ∈ objects)
    (here : Place) : h.directory.place here <+: object.place here := by
  obtain ⟨t, name, -, hplace⟩ := place_object hh hp hdir hpaths ho here
  rw [hplace]
  exact List.prefix_append ..

theorem below_archivePath {package : Document} {path : Path}
    (hpath : h.archivePath package = .ok path) (here : Place) :
    h.directory.place here <+: path.place here := by
  obtain ⟨t, -, hplace⟩ := place_archivePath hpath here
  rw [hplace]
  exact List.prefix_append ..

/-- Objects in one place go into archives in one place, unless one of their packages is named by a dot
and the other has no name. -/
theorem Makes.archive_place {source object archive source' object' archive' : Path} (here : Place)
    (hh : h.Regular) (hnames : ¬ (Yields h.packages "" ∧ Yields h.packages "."))
    (hmakes : h.Makes source object archive) (hmakes' : h.Makes source' object' archive')
    (hplace : object.place here = object'.place here) : archive.place here = archive'.place here := by
  obtain ⟨package, hp, hpath, _, _, hdir, hpaths, hmem⟩ := hmakes
  obtain ⟨package', hp', hpath', _, _, hdir', hpaths', hmem'⟩ := hmakes'
  obtain ⟨t, _, ht, hobject⟩ := place_object hh hp hdir hpaths (List.of_mem_zip hmem).2 here
  obtain ⟨t', _, ht', hobject'⟩ := place_object hh hp' hdir' hpaths' (List.of_mem_zip hmem').2 here
  obtain ⟨_, hname, harchive⟩ := place_archivePath hpath here
  obtain ⟨_, hname', harchive'⟩ := place_archivePath hpath' here
  cases ht.symm.trans hname
  cases ht'.symm.trans hname'
  rw [hobject, hobject'] at hplace
  have hparts := (List.append_inj' (List.append_cancel_left hplace) rfl).1
  have hcanonical : FileName.canonical t = FileName.canonical t' := by
    rcases canonical_eq_of_objectParts hparts with hsame | ⟨hname, hname'⟩
    · exact hsame
    · have hfirst : Yields h.packages t :=
        ⟨package, hp, text?_of_fileName ht hname, List.ne_nil_of_mem (List.of_mem_zip hmem).1⟩
      have hsecond : Yields h.packages t' :=
        ⟨package', hp', text?_of_fileName ht' hname', List.ne_nil_of_mem (List.of_mem_zip hmem').1⟩
      rcases hname with rfl | rfl <;> rcases hname' with rfl | rfl
      · rfl
      · exact absurd ⟨hfirst, hsecond⟩ hnames
      · exact absurd ⟨hsecond, hfirst⟩ hnames
      · rfl
  rw [harchive, harchive', hcanonical]

end DualImage.Half
