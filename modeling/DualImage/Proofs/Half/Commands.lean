import DualImage.Proofs.Compiler.Progress
import DualImage.Proofs.Half.Course
import DualImage.Proofs.Half.Paths

/-! The commands that build and link a half, told apart by the names of what they write. -/
namespace DualImage
open World (words)

/-- The place bears this name. -/
def Place.Bears (name : Text) (place : Place) : Prop := ∃ above, place = above ++ [name]

theorem Place.Bears.eq {place : Place} {name name' : Text} (h : place.Bears name)
    (h' : place.Bears name') : name = name' := by
  obtain ⟨above, rfl⟩ := h
  obtain ⟨above', hplace⟩ := h'
  exact List.singleton_inj.1 (List.append_inj' hplace rfl).2

theorem Path.bears_place {p : Path} {name : String} (h : p.name = name)
    (hlast : (name : Text).codes.getLast? = some (.character 'f')) (here : Place) :
    (p.place here).Bears name := by
  refine ⟨p.parent.place here, ?_⟩
  rw [p.place_eq_concat (h ▸ hlast) (by decide) here, h, FileName.canonical_ofString]

namespace Command
variable {c : Command} {here place : Place}

/-- The command compiles the object at this place. -/
def Compiles (here place : Place) (c : Command) : Prop :=
  c.tool.endsWith "gcc" = true ∧ ("-c" : Text) ∈ c ∧ c.Writes here place

instance (here place : Place) (c : Command) : Decidable (c.Writes here place) :=
  decidable_of_iff (c.output?.map (·.place here) = some place) Option.map_eq_some_iff

instance (here place : Place) (c : Command) : Decidable (c.Compiles here place) := by
  unfold Compiles
  infer_instance

/-- The command makes the archive at this place. -/
def Archives (here place : Place) (c : Command) : Prop :=
  c.tool.endsWith "ar" = true ∧ ("rcs" : Text) ∈ c ∧ c.Writes here place

/-- The command links the binary at this place. -/
def Links (here place : Place) (c : Command) : Prop :=
  c.tool.endsWith "gcc" = true ∧ ("-Wl,--start-group" : Text) ∈ c ∧ c.Writes here place

/-- What a command that builds a half writes, by the end of its name. -/
inductive Makes (c : Command) (p : Path) : Prop
  | object (name : p.name.codes.getLast? = some (.character 'o'))
    (tool : c.tool.endsWith "gcc" = true) (word : ("-c" : Text) ∈ c)
  | archive (name : p.name.codes.getLast? = some (.character 'a'))
    (tool : c.tool.endsWith "ar" = true) (word : ("rcs" : Text) ∈ c)
  | binary (name : p.name = "app.elf" ∨ p.name = "loader.elf")
    (tool : c.tool.endsWith "gcc" = true) (word : ("-Wl,--start-group" : Text) ∈ c)

/-- The command writes nothing, or it makes a part of a half. -/
def Builds (c : Command) : Prop := ∀ p, c.output? = some p → c.Makes p

/-- The command writes nothing but the loader image. -/
def Edits (c : Command) : Prop := ∀ p, c.output? = some p → p.name = "loader_rom.elf"

private theorem Edits.bears (hc : c.Edits) (hw : c.Writes here place) :
    place.Bears "loader_rom.elf" := by
  obtain ⟨p, hp, rfl⟩ := hw
  exact Path.bears_place (hc p hp) (by decide) here

private theorem Edits.endsIn (hc : c.Edits) (hw : c.Writes here place) : place.EndsIn 'f' := by
  obtain ⟨p, hp, rfl⟩ := hw
  refine Path.endsIn_place ?_ (by decide) here
  rw [hc p hp]
  decide

/-- A binary is not where a loader image is. -/
theorem not_bears_binary {p : Path} (h : p.name = "app.elf" ∨ p.name = "loader.elf")
    (here : Place) : (p.place here).EndsIn 'f' ∧ ¬ (p.place here).Bears "loader_rom.elf" := by
  rcases h with h | h
  · refine ⟨Path.endsIn_place (by rw [h]; decide) (by decide) here, fun himage => ?_⟩
    exact absurd ((Path.bears_place h (by decide) here).eq himage) (by decide)
  · refine ⟨Path.endsIn_place (by rw [h]; decide) (by decide) here, fun himage => ?_⟩
    exact absurd ((Path.bears_place h (by decide) here).eq himage) (by decide)

theorem Builds.writes_cases (hc : c.Builds) (hw : c.Writes here place) :
    place.EndsIn 'o' ∧ c.Compiles here place ∨ place.EndsIn 'a' ∧ c.Archives here place ∨
      place.EndsIn 'f' ∧ c.Links here place ∧ ¬ place.Bears "loader_rom.elf" := by
  obtain ⟨p, hp, rfl⟩ := hw
  cases hc p hp with
  | object hname htool hword =>
    exact .inl ⟨Path.endsIn_place hname (by decide) here, htool, hword, p, hp, rfl⟩
  | archive hname htool hword =>
    exact .inr (.inl ⟨Path.endsIn_place hname (by decide) here, htool, hword, p, hp, rfl⟩)
  | binary hname htool hword =>
    obtain ⟨hend, himage⟩ := not_bears_binary hname here
    exact .inr (.inr ⟨hend, ⟨htool, hword, p, hp, rfl⟩, himage⟩)

section
variable (hc : c.Builds ∨ c.Edits) (hw : c.Writes here place)
include hc hw

/-- Only compiling writes a name that ends as an object's does. -/
theorem compiles_of_writes (hplace : place.EndsIn 'o') : c.Compiles here place := by
  rcases hc with hc | hc
  · rcases hc.writes_cases hw with ⟨-, h⟩ | ⟨hend, -⟩ | ⟨hend, -⟩
    · exact h
    · exact absurd (hplace.byte_eq hend rfl rfl) (by decide)
    · exact absurd (hplace.byte_eq hend rfl rfl) (by decide)
  · exact absurd (hplace.byte_eq (hc.endsIn hw) rfl rfl) (by decide)

/-- Only archiving writes a name that ends as an archive's does. -/
theorem archives_of_writes (hplace : place.EndsIn 'a') : c.Archives here place := by
  rcases hc with hc | hc
  · rcases hc.writes_cases hw with ⟨hend, -⟩ | ⟨-, h⟩ | ⟨hend, -⟩
    · exact absurd (hplace.byte_eq hend rfl rfl) (by decide)
    · exact h
    · exact absurd (hplace.byte_eq hend rfl rfl) (by decide)
  · exact absurd (hplace.byte_eq (hc.endsIn hw) rfl rfl) (by decide)

/-- Only linking writes a name that ends as a binary's does, besides editing the loader image. -/
theorem links_of_writes (hplace : place.EndsIn 'f') (himage : ¬ place.Bears "loader_rom.elf") :
    c.Links here place := by
  rcases hc with hc | hc
  · rcases hc.writes_cases hw with ⟨hend, -⟩ | ⟨hend, -⟩ | ⟨-, h, -⟩
    · exact absurd (hplace.byte_eq hend rfl rfl) (by decide)
    · exact absurd (hplace.byte_eq hend rfl rfl) (by decide)
    · exact h
  · exact absurd (hc.bears hw) himage

end

/-- Building the halves leaves the loader image alone. -/
theorem Builds.not_bears (hc : c.Builds) (hw : c.Writes here place) (hplace : place.EndsIn 'f') :
    ¬ place.Bears "loader_rom.elf" := by
  rcases hc.writes_cases hw with ⟨hend, -⟩ | ⟨hend, -⟩ | ⟨-, -, h⟩
  · exact absurd (hplace.byte_eq hend rfl rfl) (by decide)
  · exact absurd (hplace.byte_eq hend rfl rfl) (by decide)
  · exact h

end Command

namespace Compiler
variable {c : Compiler} {command : Command}

private theorem mem_of_words {ds : List Document} {ws : Command} (h : words ds = .ok ws) {t : Text}
    (ht : .text t ∈ ds) : t ∈ ws := by
  obtain ⟨word, hword, heq⟩ := (Except.mem_of_mapM_eq_ok h).1 _ ht
  cases heq
  exact hword

private theorem endsWith_words {name : String} {tool : Text} (h : c.tool name = .ok tool)
    {ds : List Document} (hwords : words (.text tool :: ds) = .ok command) :
    command.tool.endsWith name = true := by
  obtain ⟨rest, rfl, -⟩ := World.words_text_eq_ok hwords
  exact endsWith_of_tool h

theorem makes_of_compileCommand {package : Package} {defines : List Document}
    {source object : Path} (hname : object.name.codes.getLast? = some (.character 'o'))
    (h : c.compileCommand package defines source object = .ok command) : command.Makes object := by
  obtain ⟨gcc, hgcc, h⟩ := Except.bind_eq_ok_iff.1 h
  obtain ⟨features, -, h⟩ := Except.bind_eq_ok_iff.1 h
  simp only [List.cons_append, List.nil_append] at h
  exact .object hname (endsWith_words hgcc h) (mem_of_words h (by simp))

theorem makes_of_linkCommand {archives symbolFiles : List Path} {script output : Path}
    (hname : output.name = "app.elf" ∨ output.name = "loader.elf")
    (h : c.linkCommand archives script output symbolFiles = .ok command) : command.Makes output := by
  obtain ⟨gcc, flags, hgcc, -, rfl⟩ := linkCommand_eq_ok h
  exact .binary hname (endsWith_of_tool hgcc) (by simp)

theorem makes_of_archive {tool : Text} {path : Path} {objects : List Text}
    (hname : path.name.codes.getLast? = some (.character 'a')) (h : c.tool "ar" = .ok tool) :
    Command.Makes (tool :: "rcs" :: path.toText :: objects) path :=
  .archive hname (endsWith_of_tool h) (by simp)

end Compiler

/-- A half of a build: none of its flags redirects the compiler, and its paths could have been
read. -/
structure Half.Regular (h : Half) : Prop where
  name : h.name = "app" ∨ h.name = "loader"
  plain : h.buildDir.Plain
  flags : Compiler.Undirected h.compiler.compileFlags
  packages : ∀ p ∈ h.packages, p.Orderly

namespace Half
variable {h : Half} {package : Document} {path : Path}

private theorem name_child {p : Path} {t : Text} (ht : Path.IsPart t) : (p.child t).name = t := by
  rw [Path.child_of_isPart ht]
  simp [Path.name]

private theorem getLast?_append_ofChars (t : Text) (c : Char) :
    (t ++ Text.ofChars ['.', c]).codes.getLast? = some (.character c) := by
  rw [Text.codes_append, List.getLast?_append]
  rfl

theorem name_archivePath (hpath : h.archivePath package = .ok path) :
    path.name.codes.getLast? = some (.character 'a') := by
  obtain ⟨t, -, hpart, -, rfl⟩ := exists_name_of_archivePath hpath
  rw [name_child hpart]
  exact getLast?_append_ofChars t 'a'

theorem name_objectPaths {sources objects : List Path} {object objectDir : Path}
    (hsources : ∀ s ∈ sources, s.Plain) (hobjects : objectPaths? sources objectDir = some objects)
    (ho : object ∈ objects) : object.name.codes.getLast? = some (.character 'o') := by
  obtain ⟨stem, hpart, -, rfl⟩ := exists_stem_of_objectPaths hsources hobjects ho
  rw [name_child hpart]
  exact getLast?_append_ofChars stem 'o'

theorem name_loaderImage (hname : h.name = "loader") : h.loaderImage.name = "loader_rom.elf" := by
  rw [loaderImage, hname]
  exact name_child (t := "loader_rom.elf") (by decide)

namespace Regular
variable (hh : h.Regular)
include hh

theorem plain_directory : h.directory.Plain := hh.plain.child _

theorem plain_binary : h.binary.Plain := hh.plain_directory.child _

theorem plain_loaderImage : h.loaderImage.Plain := hh.plain_directory.child _

theorem name_binary : h.binary.name = "app.elf" ∨ h.binary.name = "loader.elf" := by
  unfold binary
  rcases hh.name with hname | hname
  · rw [hname]
    exact .inl (name_child (t := "app.elf") (by decide))
  · rw [hname]
    exact .inr (name_child (t := "loader.elf") (by decide))

theorem plain_archivePath (hpath : h.archivePath package = .ok path) : path.Plain := by
  obtain ⟨t, -, -, -, rfl⟩ := exists_name_of_archivePath hpath
  exact (hh.plain_directory.child _).child _

theorem plain_objectDir (hpath : h.objectDir package = .ok path) : path.Plain := by
  obtain ⟨t, -, hpath⟩ := Except.bind_eq_ok_iff.1 hpath
  cases hpath
  exact (hh.plain_directory.child _).child _

/-- A binary is not where a loader image is. -/
theorem binary_place (here : Place) : (h.binary.place here).EndsIn 'f' ∧
    ¬ (h.binary.place here).Bears "loader_rom.elf" :=
  Command.not_bears_binary hh.name_binary here

/-- The objects of a package are what its compiler's commands write. -/
theorem output?_compile {p : Package} (hp : p ∈ h.packages) {objectDir source object : Path}
    {objects : List Path} (hdir : h.objectDir p.name = .ok objectDir)
    (hobjects : objectPaths? p.sources objectDir = some objects) (ho : object ∈ objects)
    {command : Command}
    (hcommand : h.compiler.compileCommand p h.features source object = .ok command) :
    command.output? = some object := by
  obtain ⟨hflags, hsources⟩ := hh.packages p hp
  obtain ⟨stem, -, -, rfl⟩ := exists_stem_of_objectPaths hsources hobjects ho
  exact Compiler.output?_of_compileCommand hh.flags hflags ((hh.plain_objectDir hdir).child _) hcommand

/-- All that a half asks of its tools builds it. -/
theorem issues : h.Issues Command.Builds Path.Plain where
  compile := by
    intro p hp objectDir objects hdir hobjects object ho source command hcommand q hq
    rw [hh.output?_compile hp hdir hobjects ho hcommand] at hq
    cases hq
    have hname := name_objectPaths (hh.packages p hp).sources hobjects ho
    exact Compiler.makes_of_compileCommand hname hcommand
  archive := by
    intro name path tool hpath htool objects q hq
    obtain ⟨before, -, rfl⟩ := Compiler.tool_eq_ok_iff.1 htool
    rw [Command.output?_ar] at hq
    cases hq
    have hback : Path.ofText path.toText = path := (hh.plain_archivePath hpath).readBack
    exact hback.symm ▸ Compiler.makes_of_archive (name_archivePath hpath) htool
  archivePath _ _ hpath := hh.plain_archivePath hpath
  link := by
    intro archives script symbolFiles command hcommand q hq
    rw [Compiler.output?_of_linkCommand hh.plain_binary hcommand] at hq
    cases hq
    exact Compiler.makes_of_linkCommand hh.name_binary hcommand
  dump := by
    intro tool htool p q hq
    obtain ⟨before, -, rfl⟩ := Compiler.tool_eq_ok_iff.1 htool
    rw [Command.output?_objdump] at hq
    cases hq

end Regular
end Half
end DualImage
