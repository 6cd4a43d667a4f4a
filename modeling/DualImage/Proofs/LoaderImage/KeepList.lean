import DualImage.Proofs.Build.Steps
import DualImage.Proofs.Compiler.Conduct
import DualImage.Proofs.Listing.Shape
import DualImage.Proofs.LoaderImage.Exports
import DualImage.Proofs.Workspace.Persistence

/-! The list of the symbols that stay global in the loader image, as the tool reads it. -/
namespace DualImage

namespace Text

/-- The lines of a file without their line feeds, all breaks counting as feeds. A feed at the very end
opens no further line. -/
def fileLines (s : String) : List String :=
  let pieces := (unifyBreaks s.toList).splitOn '\n'
  (if pieces.getLast? = some [] then pieces.dropLast else pieces).map String.ofList

private theorem splitOn_feeds {lines : List (List Char)} (h : ∀ line ∈ lines, '\n' ∉ line) :
    (lines.flatMap (· ++ ['\n'])).splitOn '\n' = lines ++ [[]] := by
  induction lines with
  | nil => rfl
  | cons line lines ih =>
    obtain ⟨hline, hlines⟩ := List.forall_mem_cons.1 h
    have hfeed : ∀ c ∈ line, (c == '\n') = false :=
      fun c hc => beq_eq_false_iff_ne.2 fun he => hline (he ▸ hc)
    rw [List.flatMap_cons, List.append_assoc, List.singleton_append, List.splitOn_eq_splitOnP,
      List.splitOnP_append_cons_of_forall_mem hfeed '\n' rfl, ← List.splitOn_eq_splitOnP, ih hlines]
    rfl

section
variable {names : List String} (h : ∀ name ∈ names, '\n' ∉ name.toList ∧ '\r' ∉ name.toList)
include h

private theorem return_notMem_join : '\r' ∉ (String.join (names.map (· ++ "\n"))).toList := by
  simp only [String.toList_join, List.flatMap_map, String.toList_append, List.mem_flatMap,
    List.mem_append]
  rintro ⟨name, hname, hmem | hfeed⟩
  · exact (h name hname).2 hmem
  · revert hfeed
    decide

private theorem fileLines_join : fileLines (String.join (names.map (· ++ "\n"))) = names := by
  have hlist : (String.join (names.map (· ++ "\n"))).toList =
      (names.map String.toList).flatMap (· ++ ['\n']) := by
    simp [String.toList_join, List.flatMap_map]
  have hfeed : ∀ line ∈ names.map String.toList, '\n' ∉ line :=
    List.forall_mem_map.2 fun name hname => (h name hname).1
  rw [fileLines, unifyBreaks_eq_self (return_notMem_join h), hlist, splitOn_feeds hfeed]
  simp

/-- A file that reads as the names, each with a line feed, has the names as its lines. -/
theorem fileLines_of_join {text : String}
    (htext : Text.ofChars (unifyBreaks text.toList) = String.join (names.map (· ++ "\n"))) :
    fileLines text = names := by
  have hsame : unifyBreaks text.toList = (String.join (names.map (· ++ "\n"))).toList :=
    List.map_injective_iff.2 (fun _ _ => CodePoint.character.inj) (congrArg codes htext)
  refine Eq.trans ?_ (fileLines_join h)
  rw [fileLines, fileLines, unifyBreaks_eq_self (return_notMem_join h), hsame]

theorem return_notMem_join_codes :
    CodePoint.character '\r' ∉ (String.join (names.map (· ++ "\n")) : Text).codes := by
  intro hmem
  obtain ⟨c, hc, heq⟩ := List.mem_map.1 hmem
  cases heq
  exact return_notMem_join h hc

end

end Text

/-- All names were read from listings. -/
def SymbolTable.FromListings (t : SymbolTable) : Prop :=
  ∀ name ∈ t.names, ∃ (o : Listing.Origin) (text : String), name ∈ (o.table text).names

namespace LoaderImage
open World
variable {c : Compiler} {source image : Path} {loader application linked exported : SymbolTable}
  {w w' : World}

theorem isWord_of_mem_exportTable (hloader : loader.FromListings) {name : String}
    (h : name ∈ (exportTable loader application linked).names) : Text.IsWord name.toList := by
  rcases mem_names_exportTable.1 h with hboundary | hretained
  · have hall : ∀ name ∈ boundarySymbols, Text.IsWord name.toList := by decide
    exact hall name hboundary
  · obtain ⟨s, _, _, hs, -⟩ := hretained.agreed
    obtain ⟨o, text, hmem⟩ := hloader name (SymbolTable.mem_names_iff_find?.2 ⟨s, hs⟩)
    obtain ⟨s', hs', rfl⟩ := SymbolTable.mem_names.1 hmem
    exact (Listing.shaped_of_mem_table hs').1.name

theorem root_notMem_exportTable {name : String} (h : name ∈ rootSymbols) :
    name ∉ (exportTable loader application linked).names := by
  rw [mem_names_exportTable]
  rintro (hboundary | hretained)
  · revert name
    decide
  · exact hretained.notRoot h

/-- The two edits of a loader image, and the list that the first one left. -/
private theorem edits_of_build (hr : build c source image loader application linked w =
    .ok exported w') : ∃ tool list, c.tool "objcopy" = .ok tool ∧
      Compiler.keepFile image = .ok list ∧
      w'.commands = w.commands ++
        [[tool, "--keep-global-symbols=" ++ list.toText, source.toText, image.toText],
          tool :: (Compiler.renamings boundarySymbols loaderEnding ++ [image.toText])] ∧
      (CodePoint.character '\r' ∉ (Compiler.keepText exported.names : Text).codes →
        w'.disk.Recorded list (Compiler.keepText exported.names)) := by
  obtain ⟨w₁, w₂, w₃, p, hexports, hspoken, hcopy, hrename⟩ := Build.build_steps hr
  obtain ⟨list, b, v, tool, shown, hlist, hwrite, htool, hrun⟩ := Compiler.copyKeeping_steps hcopy
  obtain ⟨tool', shown', htool', hrun'⟩ := Compiler.renameSymbols_steps hrename
  obtain rfl : tool = tool' := Except.ok.inj (htool.symm.trans htool')
  obtain ⟨console, rfl⟩ := trans_of Spoken ((answers_exports ..).of_ok hexports).2 hspoken
  obtain ⟨d, hwritten, rfl⟩ := attempt_eq_ok hwrite
  refine ⟨tool, list, htool, hlist, ?_, fun hreturn => ?_⟩
  · rw [World.commands_of_run hrun', World.commands_of_run hrun, List.append_assoc]
    rfl
  · have hkept : World.Persists _ w' :=
      trans_of World.Persists (Keeps.run_persists.ok hrun) (Keeps.run_persists.ok hrun')
    exact Disk.Persists.recorded hkept (Disk.recorded_of_writeIfChanged hwritten hreturn)

/-- A loader image for symbols that were read from listings is made by two commands, a copy of the
linked loader and an edit of that copy. Whatever stood in the list of names before, the copy is made
with the names of the exports, one on a line and in order. The boundary symbols that get a longer name
are among them, and the loader's roots are not. -/
theorem keep_list_exact (hloader : loader.FromListings)
    (hr : build c source image loader application linked w = .ok exported w') :
    ∃ tool list text, c.tool "objcopy" = .ok tool ∧ Compiler.keepFile image = .ok list ∧
      w'.commands = w.commands ++
        [[tool, "--keep-global-symbols=" ++ list.toText, source.toText, image.toText],
          tool :: ((Text.sorted boundarySymbols).flatMap (fun name : String =>
            (["--redefine-sym", name ++ "=" ++ name ++ "_loader"] : Command)) ++
              [image.toText])] ∧
      w'.disk.read list = .ok text ∧
      (∀ name, name ∈ Text.fileLines text ↔ name ∈ exported.names) ∧
      (Text.fileLines text).Pairwise (· < ·) ∧
      (∀ name ∈ boundarySymbols, name ∈ Text.fileLines text) ∧
      ∀ name ∈ rootSymbols, name ∉ Text.fileLines text := by
  obtain ⟨w₁, w₂, w₃, p, hexports, -⟩ := Build.build_steps hr
  have hexported := eq_exportTable_of_eq_ok hexports
  have hnames : ∀ name ∈ Text.sorted exported.names, '\n' ∉ name.toList ∧ '\r' ∉ name.toList := by
    intro name hname
    rw [hexported, Text.mem_sorted] at hname
    have hword := isWord_of_mem_exportTable hloader hname
    exact ⟨fun h => Bool.false_ne_true (hword.2 _ h).symm, fun h =>
      Bool.false_ne_true (hword.2 _ h).symm⟩
  obtain ⟨tool, list, htool, hlist, hcommands, hrecorded⟩ := edits_of_build hr
  obtain ⟨text, hread, htext⟩ := hrecorded (Text.return_notMem_join_codes hnames)
  have hlines : Text.fileLines text = Text.sorted exported.names :=
    Text.fileLines_of_join hnames htext
  refine ⟨tool, list, text, htool, hlist, hcommands, hread, ?_⟩
  rw [hlines]
  refine ⟨fun name => Text.mem_sorted, Text.sorted_pairwise_lt exported.distinct,
    fun name hname => ?_, fun name hname => ?_⟩
  · rw [Text.mem_sorted, hexported]
    exact mem_names_exportTable.2 (.inl hname)
  · rw [Text.mem_sorted, hexported]
    exact root_notMem_exportTable hname

/-- A loader and an application that share a function. -/
def exampleListing : String := "00000000 g     F .text\t00000008 f\n"

def exampleShelf : SymbolTable := (Listing.Origin.ofArchive "p").table exampleListing

/-- A workspace in which a list of other names lies beside the image. -/
def exampleWorld : World where
  disk := { Disk.empty ["w"] 7 0 with
    files := (Disk.empty ["w"] 7 0).files.put ["w", "r.elf.keep"] (.file 3 "main\r\n") }
  tools := ⟨[], []⟩
  buildDirVariable := none
  console := .ofVerbosity 0
  commands := []

theorem keep_list_of_example : ∃ exported w' list text,
    build ⟨.text "", [], []⟩ (.ofText "l.elf") (.ofText "r.elf") exampleShelf exampleShelf
      (Listing.Origin.ofBinary.table exampleListing) exampleWorld = .ok exported w' ∧
    Compiler.keepFile (.ofText "r.elf") = .ok list ∧ w'.commands.length = 2 ∧
    w'.disk.read list = .ok text ∧ "f" ∈ Text.fileLines text ∧
    (Text.fileLines text).Pairwise (· < ·) ∧ "main" ∉ Text.fileLines text := by
  have hlisted : exampleShelf.FromListings := fun name hname => ⟨_, _, hname⟩
  have hbuild : (answer? (build ⟨.text "", [], []⟩ (.ofText "l.elf") (.ofText "r.elf") exampleShelf
      exampleShelf (Listing.Origin.ofBinary.table exampleListing) exampleWorld)).any
        (fun exported => "f" ∈ exported.names) = true := by
    decide +kernel
  obtain ⟨exported, hexported, hf⟩ := (Option.any_eq_true _ _).1 hbuild
  have hr := eq_ok_of_answer? hexported
  obtain ⟨tool, list, text, -, hlist, hcommands, hread, hnames, hsorted, -, hroots⟩ :=
    keep_list_exact hlisted hr
  refine ⟨exported, _, list, text, hr, hlist, ?_, hread, (hnames "f").2 (of_decide_eq_true hf),
    hsorted, hroots "main" (by decide)⟩
  rw [hcommands]
  rfl

end LoaderImage
end DualImage
