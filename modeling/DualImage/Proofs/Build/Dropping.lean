import DualImage.Proofs.Build.Division
import DualImage.Proofs.Listing.Entries
import DualImage.Proofs.LoaderImage.Republished

/-! What becomes of the symbols of a package that the application takes from the loader. -/
namespace DualImage
open Listing (Origin)
open LoaderImage (boundarySymbols republish republished publicName)

namespace Half
/-- One of the half's archives has a visible symbol of this name, in whatever section. -/
def Supplies (h : Half) (tools : Tools) (name : String) : Prop :=
  ∃ entry ∈ h.shelf, ∃ text, tools.dump h.compiler entry.2 = .ok (some text) ∧
    ∃ s ∈ (Origin.ofArchive entry.1).anySection.entries text, s.name = name ∧ s.isLocal = false

end Half

namespace Build
variable {x : Extraction} {plan : Target.Plan} {l : Target.LoaderPlan} {tools : Tools}
  {exported : SymbolTable} {dropped : List Text} {name : String}

/-- The loader's half in a first build. -/
theorem loader_of_halves {loader : Half} {s s' : Workshop × World} (hnew : loader.archives = [])
    (hr : halves plan loader s = .ok x s') : ∃ archives, x.loader = { loader with archives } := by
  obtain ⟨-, w, hbuilt, -⟩ := halves_steps hr
  obtain ⟨w₁, -, -, hbuild, -⟩ := buildLoader_steps hbuilt
  exact (Half.shelf_of_build hnew hbuild).1

/-- A visible symbol of a package that is provided is in the loader image, under its own name unless
it is a bound. -/
theorem Provided.republished {package : Text} (hprovided : Provided x package) {s : Symbol}
    (hs : s ∈ x.applicationSymbols.symbols) (hvisible : s.isLocal = false)
    (hpackage : s.package = package) (hboundary : s.name ∉ boundarySymbols)
    (hexported : exported.contains s.name = true) :
    ∃ link ∈ republished exported x.linked, link.name = s.name ∧ link.isLocal = false := by
  obtain ⟨-, -, link, hlink, hflags, -⟩ :=
    (hprovided.provided s hs hvisible hpackage).resolve_left hboundary
  obtain ⟨hmem, hname⟩ := SymbolTable.find?_eq_some_iff.1 hlink
  refine ⟨republish exported link, List.mem_map_of_mem hmem, ?_, ?_⟩
  · have hpublic : (republish exported link).name = publicName link.name := rfl
    rw [hpublic, hname, publicName, if_neg hboundary]
  · refine LoaderImage.isLocal_republish.2 ⟨hname ▸ hexported, ?_⟩
    rw [Symbol.isLocal, hflags]
    exact hvisible

/-- A visible symbol of the application is there for its link, whichever packages it takes from the
loader, unless it is a bound. -/
theorem supplied_of_settle {j : Settlement} {s s' : Workshop × World}
    (hr : settle plan l x s = .ok j s') (hmade : j.regenerated = true)
    (hcompiler : j.application.compiler = x.application.compiler)
    (hshelf : j.application.shelf = x.application.shelf.filter fun e => e.1 ∉ j.commonPackages)
    {kept : Symbol} (hkept : kept ∈ x.applicationSymbols.symbols) (hvisible : kept.isLocal = false)
    (hboundary : kept.name ∉ boundarySymbols) {origin : Text × Path}
    (horigin : origin ∈ x.application.shelf) {listed : SymbolTable}
    (hlisted : x.application.tableOf tools origin = .ok listed) (hmem : kept ∈ listed.symbols) :
    j.application.Supplies tools kept.name ∨
      ∃ link ∈ republished j.exported x.linked, link.name = kept.name ∧ link.isLocal = false := by
  obtain ⟨text, hdump, rfl⟩ := Origin.bind_tableOf_eq_ok_iff.1 hlisted
  have hentry := Origin.mem_entries_of_table hmem
  by_cases hcommon : origin.1 ∈ j.commonPackages
  · -- the package that the symbol comes from is taken from the loader, so the loader has it
    obtain ⟨-, -, htaken⟩ := (mem_commonPackages_of_settle hr).1 hcommon
    have hprovided := (taken_iff_of_settle hr hmade).1 htaken
    have hpackage : kept.package = origin.1 := Origin.package_of_mem_entries hentry
    have hexported := htaken.exported kept hkept hvisible hpackage
    exact .inr (hprovided.republished hkept hvisible hpackage hboundary
      (SymbolTable.contains_iff.2 hexported))
  · refine .inl ⟨origin, ?_, text, ?_, kept, (Origin.mem_entries_iff.1 hentry).1, rfl, hvisible⟩
    · rw [hshelf]
      exact List.mem_filter.2 ⟨horigin, decide_eq_true hcommon⟩
    · rw [hcompiler]
      exact hdump

end Build

namespace Round
variable {r : Round}

/-- No archive of the application loses a symbol that was examined when the first build of a workshop
takes packages from the loader. Every entry that is visible, not a bound, and not hidden by a later one
of its name, is there for the link of the application under its name: in an archive that stays, or in
the image that the tools make of the loader for the exports. -/
theorem symbols_supplied {t : Target} (hnew : Workshop.ofTarget t = .ok r.workshop)
    (hsplit : t.isSplit = true) {result : BuildResult} {s' : Workshop × World}
    (hok : r.run = .ok result s') (hmade : result.regenerated = true) :
    ∃ x v j u, r.compared? = some (x, v) ∧ x.loader.linkedTable r.before.tools = .ok x.linked ∧
      r.settled? = some (j, u) ∧
      (∃ l w command, r.workshop.plan.loader = some l ∧
        j.application.link l.secondScript [x.loader.loaderImage] u = .ok result.application w ∧
        j.application.compiler.linkCommand (j.application.shelf.map (·.2)) l.secondScript
          j.application.binary [x.loader.loaderImage] = .ok command ∧
        Compiler.LinkedBy command j.application.binary
          (j.application.shelf.map (·.2) ++ [x.loader.loaderImage, l.secondScript]) u w) ∧
      ∀ entry ∈ r.workshop.application.stock
          (r.workshop.plan.board.package :: r.workshop.plan.application.packages), ∃ text,
        r.before.tools.dump r.workshop.application.compiler entry.2 = .ok (some text) ∧
        ∀ earlier s later, (Origin.ofArchive entry.1).entries text = earlier ++ s :: later →
          s.isLocal = false → s.name ∉ boundarySymbols →
          (∀ l ∈ later, l.name = s.name → l.isLocal = false) →
          j.application.Supplies r.before.tools s.name ∨
            ∃ link ∈ republished result.exported x.linked,
              link.name = s.name ∧ link.isLocal = false := by
  have hsplit' : r.workshop.isSplit = true := (Target.isSplit_of_ofTarget hnew).trans hsplit
  obtain ⟨loader, l, x, j, s, s₁, -, hl, hhalves, hsettle, hconclude, hcompared, hsettled⟩ :=
    split_steps hsplit' hok
  obtain ⟨-, -, hexported, hregenerated, -⟩ := Build.conclude_steps hconclude
  obtain ⟨-, -, command, w, hcommand, hlink, hgiven, -⟩ := linkedBy_of_conclude hconclude
  obtain ⟨hof, hlinked⟩ := Build.halves_of hhalves
  obtain ⟨hstock, ⟨archives, hbuilt⟩, ⟨packages, hsettled'⟩, hshelf⟩ :=
    shelf_of_settle hnew hhalves hsettle
  have hcompiler : x.application.compiler = r.workshop.application.compiler := by rw [hbuilt]
  rw [hexported, ← hstock, ← hcompiler]
  refine ⟨x, s.2, j, s₁.2, hcompared, hlinked, hsettled,
    ⟨l, w, command, hl, hlink, hcommand, hgiven⟩, fun entry hentry => ?_⟩
  obtain ⟨-, tables, htables, -⟩ := Half.extracted_eq_ok_iff.1 hof.application
  obtain ⟨table, -, htable⟩ := (Except.mem_of_mapM_eq_ok htables).1 entry hentry
  obtain ⟨text, hdump, rfl⟩ := Origin.bind_tableOf_eq_ok_iff.1 htable
  refine ⟨text, hdump, fun earlier s later hentries hvisible hboundary hlater => ?_⟩
  -- the table of the archive has the name visibly, and so have the symbols of the half
  obtain ⟨last, hlast, hlocal⟩ := Origin.exists_visible_of_entries hentries hvisible hlater
  obtain ⟨hmem, hname⟩ := SymbolTable.find?_eq_some_iff.1 hlast
  obtain ⟨kept, hkept, hsame, hvisible', origin, horigin, listed, hlisted, hmem'⟩ :=
    Half.exists_visible_of_extracted hof.application hentry htable hmem hlocal
  rw [← hname, ← hsame] at hboundary ⊢
  exact Build.supplied_of_settle hsettle (hregenerated.symm.trans hmade) (by rw [hsettled'])
    hshelf hkept hvisible' hboundary horigin hlisted hmem'

def sharedArchive : Text × Path := ("q", ⟨.relative, ["o", "app", "lib", "q.a"]⟩)

def ownArchive : Text × Path := ("p", ⟨.relative, ["o", "app", "lib", "p.a"]⟩)

private theorem divided_entries :
    ((Origin.ofArchive "q").entries dividedShared).map (fun s => (s.name, s.isLocal)) =
        [("f", false), ("__etext", false)] ∧
      ((Origin.ofArchive "q").anySection.entries dividedShared).map (fun s => (s.name, s.isLocal)) =
        [("f", false), ("v", false), ("__etext", false)] ∧
      ((Origin.ofArchive "p").anySection.entries dividedOwn).map (·.name) = ["h"] ∧
      (Origin.ofBinary.table dividedLoader).names = ["f", "__etext"] := by
  decide +kernel

theorem symbols_supplied_divided :
    ∃ result s' x v j u, dividedRound.run = .ok result s' ∧
      dividedRound.compared? = some (x, v) ∧ dividedRound.settled? = some (j, u) ∧
      (j.application.Supplies dividedRound.before.tools "f" ∨
        ∃ link ∈ republished result.exported x.linked, link.name = "f" ∧ link.isLocal = false) := by
  obtain ⟨result, s', hok, hmade, -⟩ := dividedRound_eq_ok
  obtain ⟨x, v, j, u, hcompared, -, hsettled, -, hall⟩ :=
    symbols_supplied (History.ofTarget_exampleTarget _) rfl hok hmade
  refine ⟨result, s', x, v, j, u, hok, hcompared, hsettled, ?_⟩
  obtain ⟨text, hdump, hsupplied⟩ := hall sharedArchive (by decide)
  have hshown : dividedRound.before.tools.dump dividedRound.workshop.application.compiler
      sharedArchive.2 = .ok (some dividedShared) := rfl
  rw [hshown] at hdump
  cases hdump
  obtain ⟨s, later, hentries, hs, hlater⟩ := List.map_eq_cons_iff.1 divided_entries.1
  obtain ⟨hname, hvisible⟩ := Prod.mk.inj hs
  have hvisibles : ∀ l ∈ later, l.name = s.name → l.isLocal = false := by
    intro l hl _
    have hmem := List.mem_map_of_mem (f := fun s : Symbol => (s.name, s.isLocal)) hl
    rw [hlater, List.mem_singleton] at hmem
    exact (Prod.mk.inj hmem).2
  have hsupply := hsupplied [] s later hentries hvisible (by rw [hname]; decide) hvisibles
  rw [hname] at hsupply
  exact hsupply

private theorem linked_of_dividedRound {loader : Half} {x : Build.Extraction}
    {s : Workshop × World} (hloader : dividedRound.workshop.loader = some loader)
    (hhalves : Build.halves dividedRound.workshop.plan loader
      (dividedRound.workshop, dividedRound.before) = .ok x s) :
    x.linked = Origin.ofBinary.table dividedLoader := by
  obtain ⟨archives, hbuilt⟩ := Build.loader_of_halves (by cases hloader; rfl) hhalves
  obtain ⟨text, hdump, hread⟩ :=
    Origin.bind_tableOf_eq_ok_iff.1 (Build.halves_of hhalves).2
  have hbinary : x.loader.binary = ⟨.relative, ["o", "loader", "loader.elf"]⟩ := by
    have hsame : x.loader.binary = loader.binary := by
      rw [hbuilt]
      rfl
    rw [hsame]
    cases hloader
    decide +kernel
  have hshown : dividedRound.before.tools.dump loader.compiler
      ⟨.relative, ["o", "loader", "loader.elf"]⟩ = .ok (some dividedLoader) := by
    cases hloader
    rfl
  rw [hbinary, hbuilt, hshown] at hdump
  cases hdump
  exact hread

/-- The application takes the package q from the loader. Its link then finds neither the variable in
the section that was not examined nor, under that name, the bound of the package. -/
theorem symbols_lost :
    ∃ result s', dividedRound.run = .ok result s' ∧ result.regenerated = true ∧
      ∃ x v j u, dividedRound.compared? = some (x, v) ∧ dividedRound.settled? = some (j, u) ∧
        ∃ entry ∈ x.application.shelf, entry ∉ j.application.shelf ∧ ∃ text,
          dividedRound.before.tools.dump x.application.compiler entry.2 = .ok (some text) ∧
          ∀ name ∈ ["v", "__etext"],
            (∃ s ∈ (Origin.ofArchive entry.1).anySection.entries text,
              s.name = name ∧ s.isLocal = false) ∧
            ¬ (j.application.Supplies dividedRound.before.tools name ∨
              ∃ link ∈ republished result.exported x.linked,
                link.name = name ∧ link.isLocal = false) := by
  obtain ⟨result, s', hok, hmade, hcommon⟩ := dividedRound_eq_ok
  obtain ⟨loader, l, x, j, s, s₁, hloader, -, hhalves, hsettle, hconclude, hcompared, hsettled⟩ :=
    split_steps (r := dividedRound) rfl hok
  obtain ⟨hstock, ⟨archives, hbuilt⟩, ⟨packages, hsettled'⟩, hshelf⟩ :=
    shelf_of_settle (History.ofTarget_exampleTarget _) hhalves hsettle
  obtain ⟨-, hcommon', -⟩ := Build.conclude_steps hconclude
  rw [← hcommon', hcommon, hstock] at hshelf
  have hcompiler : j.application.compiler = dividedRound.workshop.application.compiler := by
    rw [hsettled', hbuilt]
  have hstays : j.application.shelf = [ownArchive] := by
    rw [hshelf]
    decide
  refine ⟨result, s', hok, hmade, x, s.2, j, s₁.2, hcompared, hsettled,
    sharedArchive, ?_, ?_, dividedShared, ?_, ?_⟩
  · rw [hstock]
    decide
  · rw [hstays]
    decide
  · rw [hbuilt]
    rfl
  obtain ⟨-, hany, hown, hlinked⟩ := divided_entries
  have hread := linked_of_dividedRound hloader hhalves
  intro name hname
  constructor
  · have hmem : (name, false) ∈ [("f", false), ("v", false), ("__etext", false)] := by
      revert name
      decide
    rw [← hany] at hmem
    obtain ⟨s, hs, hsame⟩ := List.mem_map.1 hmem
    exact ⟨s, hs, Prod.mk.inj hsame⟩
  · rintro (⟨entry, hentry, text, hdump, s, hs, rfl, -⟩ | ⟨link, hlink, rfl, -⟩)
    · rw [hstays, List.mem_singleton] at hentry
      rw [hentry] at hs hdump
      have hshown : dividedRound.before.tools.dump dividedRound.workshop.application.compiler
          ownArchive.2 = .ok (some dividedOwn) := rfl
      rw [hcompiler, hshown] at hdump
      cases hdump
      have hmem : s.name ∈ ["h"] := hown ▸ List.mem_map_of_mem hs
      revert hname
      rw [List.mem_singleton.1 hmem]
      decide
    · obtain ⟨a, ha, rfl⟩ := List.mem_map.1 hlink
      have hmem : a.name ∈ ["f", "__etext"] := by
        rw [← hlinked, ← hread]
        exact List.mem_map_of_mem ha
      have hpublic : (republish result.exported a).name = publicName a.name := rfl
      rw [hpublic] at hname
      revert hname
      generalize a.name = name at hmem
      revert name
      decide

end Round
end DualImage
