import DualImage.Proofs.LoaderImage.Exports
import DualImage.Proofs.Sharing
import DualImage.Proofs.Workspace.Command

/-! The loader image as the tools make it of the linked loader, and reading back from it what the
making of it exported. -/
namespace DualImage

/-- The same symbol with local binding. -/
def Symbol.hidden (s : Symbol) : Symbol :=
  { s with code := String.ofList ('l' :: (Flags.columns s.code).tail) }

@[simp] theorem Symbol.isLocal_hidden (s : Symbol) : s.hidden.isLocal = true := by
  simp [hidden, isLocal, flags, Flags.ofCode, Flags.columns]

namespace LoaderImage
open Listing (Origin)

variable {loader application linked exported listed : SymbolTable} {s : Symbol} {name : String}

/-- The name in the image of a symbol of the linked loader. -/
def publicName (name : String) : String :=
  if name ∈ boundarySymbols then name ++ loaderEnding else name

/-- A symbol of the linked loader as the image has it: local unless it is exported, and under the
longer name when it is a boundary symbol. -/
def republish (exported : SymbolTable) (s : Symbol) : Symbol :=
  { (if exported.contains s.name then s else s.hidden) with name := publicName s.name }

/-- The symbols of a well-made image. -/
def republished (exported linked : SymbolTable) : List Symbol :=
  linked.symbols.map (republish exported)

/-- No symbol of the linked loader bears a name that a boundary symbol gets in the image. -/
def Unended (linked : SymbolTable) : Prop :=
  ∀ boundary ∈ boundarySymbols, linked.contains (boundary ++ loaderEnding) = false

instance (linked : SymbolTable) : Decidable (Unended linked) := by
  unfold Unended
  infer_instance

/-- The names of the exports in the application's view are those in the linked loader. -/
theorem importedName_publicName (h : ∀ boundary ∈ boundarySymbols, boundary ++ loaderEnding ≠ name) :
    importedName (publicName name) = name := by
  have hboundary : ∀ boundary ∈ boundarySymbols,
      importedName (boundary ++ loaderEnding) = boundary := by decide
  unfold publicName
  split
  · next hb => exact hboundary name hb
  · have hnone : boundarySymbols.find? (· ++ loaderEnding == name) = none := by
      simpa using h
    rw [importedName, hnone]

theorem Unended.importedName_publicName (h : Unended linked) (hs : s ∈ linked.symbols) :
    importedName (publicName s.name) = s.name := by
  refine LoaderImage.importedName_publicName fun boundary hb he => ?_
  have hcontains : linked.contains s.name = true :=
    SymbolTable.contains_iff.2 (SymbolTable.mem_names.2 ⟨s, hs, rfl⟩)
  rw [← he, h boundary hb] at hcontains
  cases hcontains

/-- What is visible in the image is what is exported and visible in the linked loader. -/
theorem isLocal_republish :
    (republish exported s).isLocal = false ↔ exported.contains s.name = true ∧ s.isLocal = false := by
  have hbinding : (republish exported s).isLocal =
      (if exported.contains s.name then s else s.hidden).isLocal := rfl
  rw [hbinding]
  split
  · next h => exact (and_iff_right h).symm
  · next h => simp [h]

/-- The application sees a visible symbol of the image as it is in the linked loader. -/
theorem republish_eq (h : exported.contains s.name = true) :
    { republish exported s with name := s.name } = s := by
  rw [republish, if_pos h]

/-- The exports that an image tells are those that the linked loader shows, as it shows them. -/
theorem find?_importsOf (hlisted : listed.symbols.Perm (republished exported linked))
    (hended : Unended linked) :
    (importsOf listed).find? name = some s ↔
      exported.contains name = true ∧ linked.find? name = some s ∧ s.isLocal = false := by
  have hname {a : Symbol} (ha : a ∈ linked.symbols) :
      importedName (republish exported a).name = a.name := hended.importedName_publicName ha
  have hone : ∀ a ∈ republished exported linked, ∀ b ∈ republished exported linked,
      importedName a.name = importedName b.name → a = b := by
    intro _ h _ h' he
    obtain ⟨a, ha, rfl⟩ := List.mem_map.1 h
    obtain ⟨b, hb, rfl⟩ := List.mem_map.1 h'
    rw [hname ha, hname hb] at he
    rw [SymbolTable.eq_of_name_eq ha hb he]
  have hmem {a : Symbol} : a ∈ listed.symbols ↔ a ∈ republished exported linked := hlisted.mem_iff
  -- the symbols read back are the visible exports of the linked loader, unchanged
  have himports : s ∈ (listed.symbols.filter (!·.isLocal)).map
      (fun a => { a with name := importedName a.name }) ↔
      s ∈ linked.symbols ∧ exported.contains s.name = true ∧ s.isLocal = false := by
    simp only [List.mem_map, List.mem_filter, hmem, Bool.not_eq_true']
    constructor
    · rintro ⟨_, ⟨h, hvisible⟩, rfl⟩
      obtain ⟨a, ha, rfl⟩ := List.mem_map.1 h
      obtain ⟨hexported, hvisible⟩ := isLocal_republish.1 hvisible
      rw [hname ha, republish_eq hexported]
      exact ⟨ha, hexported, hvisible⟩
    · rintro ⟨hs, hexported, hvisible⟩
      refine ⟨republish exported s, ⟨List.mem_map_of_mem hs,
        isLocal_republish.2 ⟨hexported, hvisible⟩⟩, ?_⟩
      rw [hname hs, republish_eq hexported]
  rw [importsOf, SymbolTable.find?_ofList, himports, SymbolTable.find?_eq_some_iff]
  · constructor
    · rintro ⟨⟨hs, hexported, hvisible⟩, rfl⟩
      exact ⟨hexported, ⟨hs, rfl⟩, hvisible⟩
    · rintro ⟨hexported, ⟨hs, rfl⟩, hvisible⟩
      exact ⟨⟨hs, hexported, hvisible⟩, rfl⟩
  · intro _ h _ h' he
    obtain ⟨a, ha, rfl⟩ := List.mem_map.1 h
    obtain ⟨b, hb, rfl⟩ := List.mem_map.1 h'
    rw [hone a (hmem.1 (List.mem_filter.1 ha).1) b (hmem.1 (List.mem_filter.1 hb).1) he]

theorem answers_readExports (c : Compiler) (image : Path) (w : World) :
    Answers (World.Quiet Command.Lists) (readExports c image)
      (w.tools.dump c image >>= fun text =>
        Origin.ofBinary.tableOf text >>= fun listed => .ok (importsOf listed)) w := by
  refine (Answers.dumpSymbols c image).bind fun _ _ _ => ?_
  refine ((Answers.readListing ..).mono fun _ => Spoken.quiet).bind fun _ _ _ => ?_
  exact .pure _

/-- A visible symbol of the application that is exported is visible in the linked loader too, unless
it is a boundary symbol. -/
theorem Retained.visible (h : Retained loader application linked s.name)
    (hs : s ∈ application.symbols) (hvisible : s.isLocal = false) :
    ∃ link, linked.find? s.name = some link ∧ link.isLocal = false := by
  obtain ⟨-, _, other, link, -, hother, hlink, ⟨hflags, -⟩, hkept, -⟩ := h
  obtain rfl := Option.some.inj ((SymbolTable.find?_name hs).symm.trans hother)
  refine ⟨link, hlink, ?_⟩
  rw [Symbol.isLocal, ← hkept, hflags]
  exact hvisible

/-- Reading the exports back from a well-made image agrees with making them again. What is read back
are the exports that the linked loader shows, as it shows them, and where boundary symbols are made
by the link alone, the same packages are shared and the same ones refused. -/
theorem readExports_outcome {c : Compiler} {image : Path} {w w' v : World} {text : String}
    (hmade : exports loader application linked w = .ok exported w')
    (hshown : v.tools.dump c image = .ok (some text))
    (hlisted : (Origin.ofBinary.table text).symbols.Perm (republished exported linked))
    (hended : Unended linked) :
    ∃ imported v', readExports c image v = .ok imported v' ∧ Unmoved v v' ∧
      (∀ name, name ∈ imported.names ↔
        name ∈ exported.names ∧ ∃ s, linked.find? name = some s ∧ s.isLocal = false) ∧
      (∀ name ∈ imported.names, imported.find? name = linked.find? name) ∧
      ((∀ s ∈ application.symbols, s.isLocal = false → s.name ∉ boundarySymbols) →
        ∀ keep skip : List Text,
          Sharing.commonPackages application imported keep =
            Sharing.commonPackages application exported keep ∧
          Build.refusePartlyShared loader application imported skip =
            Build.refusePartlyShared loader application exported skip) := by
  obtain ⟨v', hquiet, hread⟩ := answers_readExports c image v
  rw [hshown] at hread
  have hfind {name : String} {s : Symbol} :
      (importsOf (Origin.ofBinary.table text)).find? name = some s ↔
        exported.contains name = true ∧ linked.find? name = some s ∧ s.isLocal = false :=
    find?_importsOf hlisted hended
  refine ⟨_, v', hread, hquiet.unmoved, fun name => ?_, fun name hname => ?_,
    fun hboundary keep skip => ?_⟩
  · simp only [SymbolTable.mem_names_iff_find? (t := importsOf _), hfind,
      SymbolTable.contains_iff, exists_and_left]
  · obtain ⟨s, hs⟩ := SymbolTable.mem_names_iff_find?.1 hname
    rw [hs, (hfind.1 hs).2.1]
  · have hagree (left : List Text) : ∀ s ∈ Sharing.visible application left,
        (importsOf (Origin.ofBinary.table text)).contains s.name = exported.contains s.name := by
      intro s hs
      obtain ⟨hs, hvisible, -⟩ := Sharing.mem_visible.1 hs
      rw [Bool.eq_iff_iff, SymbolTable.contains_iff, SymbolTable.mem_names_iff_find?]
      constructor
      · rintro ⟨link, hlink⟩
        exact (hfind.1 hlink).1
      · intro hexported
        have hname := SymbolTable.contains_iff.1 hexported
        rw [eq_exportTable_of_eq_ok hmade, mem_names_exportTable,
          or_iff_right (hboundary s hs hvisible)] at hname
        obtain ⟨link, hlink, hvisible⟩ := hname.visible hs hvisible
        exact ⟨link, hfind.2 ⟨hexported, hlink, hvisible⟩⟩
    refine ⟨Sharing.commonPackages_congr (hagree keep), ?_⟩
    unfold Build.refusePartlyShared
    rw [Sharing.partlyShared?_congr (hagree skip)]

/-- A function of the package p, as its archive lists it. -/
def archived (code name : String) (size : Int) : Symbol :=
  ⟨name, code, ".text", size, 0, "p", Symbol.archiveSuffix⟩

/-- The same package in both halves. -/
def listedHalf : SymbolTable := .ofList [archived " w    F" "f" 4, archived "g     F" "h" 4]

/-- The link of the loader made h larger and added a bound. -/
def listedLoader : SymbolTable :=
  .ofList ([archived " w    F" "f" 4, archived "g     F" "h" 8, archived "g      " "__etext" 0].map
    fun s => { s with package := Symbol.binaryPackage, suffix := Symbol.binarySuffix })

/-- The image after both edits, locals first. -/
def listedImage : String :=
  "00000000 l     F .text\t00000008 h\n" ++ "00000000  w    F .text\t00000004 f\n" ++
    "00000000 g       .text\t00000000 __etext_loader\n"

def listedWorld : World := { (default : World) with tools := ⟨[], [("r.elf", listedImage)]⟩ }

private theorem dump_listedWorld :
    listedWorld.tools.dump ⟨.text "", [], []⟩ ⟨.relative, ["r.elf"]⟩ = .ok (some listedImage) := rfl

private theorem listedImage_facts :
    (Origin.ofBinary.table listedImage).symbols.Perm
        (republished (exportTable listedHalf listedHalf listedLoader) listedLoader) ∧
      Unended listedLoader ∧
      ((exportTable listedHalf listedHalf listedLoader).contains "f" = true ∧
        (listedLoader.find? "f").map (·.isLocal) = some false) ∧
      ∀ s ∈ listedHalf.symbols, s.isLocal = false → s.name ∉ boundarySymbols := by
  decide +kernel

/-- The weak symbol is read back as it was linked, and the sharing of the package is not changed. -/
theorem readExports_listedImage :
    ∃ imported v', readExports ⟨.text "", [], []⟩ ⟨.relative, ["r.elf"]⟩ listedWorld =
        .ok imported v' ∧
      imported.find? "f" = listedLoader.find? "f" ∧
      Sharing.commonPackages listedHalf imported [] =
        Sharing.commonPackages listedHalf (exportTable listedHalf listedHalf listedLoader) [] := by
  obtain ⟨hlisted, hended, ⟨hexported, hvisible⟩, hboundary⟩ := listedImage_facts
  obtain ⟨w', -, hmade⟩ := answers_exports listedHalf listedHalf listedLoader default
  rw [if_pos (by decide +kernel)] at hmade
  obtain ⟨imported, v', hread, -, hnames, hfind, hdecide⟩ :=
    readExports_outcome hmade dump_listedWorld hlisted hended
  refine ⟨imported, v', hread, hfind "f" ((hnames "f").2 ?_), (hdecide hboundary [] []).1⟩
  exact ⟨SymbolTable.contains_iff.1 hexported, Option.map_eq_some_iff.1 hvisible⟩

end LoaderImage
end DualImage
