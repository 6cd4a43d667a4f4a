import DualImage.Proofs.Build.History
import DualImage.Proofs.Compiler.Recording
import DualImage.Proofs.Half.Archives
import DualImage.Proofs.Sharing

/-! How the packages of a split image are divided: those that the application links itself, and those
that it takes from the loader. -/
namespace DualImage
open LoaderImage (boundarySymbols rootSymbols Retained)
variable {package : Text}

namespace Half
variable {h h' : Half} {names : List Text}

/-- The archives that stay are those of the packages that stay. -/
theorem shelf_of_removePackages (hr : h.removePackages names = .ok h')
    (hboard : ∀ name ∈ names, h.boardName.text? ≠ some name) :
    h'.shelf = h.shelf.filter fun e => e.1 ∉ names := by
  have hgone : names.filter (!h.boardName.isText ·) = names := by
    apply List.filter_eq_self.2
    intro name hname
    simpa [Document.isText] using hboard name hname
  rw [removePackages_eq_ok hr, hgone, shelf, shelf, List.filter_filterMap, List.filterMap_filter]
  refine List.filterMap_congr fun p _ => ?_
  have hentry : entry? { h with packages := h.packages.filter fun p => !names.any p.name.isText } p =
      h.entry? p := rfl
  rw [hentry]
  cases htext : p.name.text? with
  | none =>
    unfold entry?
    simp [htext, Document.isText]
  | some name =>
    unfold entry?
    cases hlookup : h.archives.lookup name <;>
      simp [htext, Document.isText, hlookup, Option.filter, List.any_eq]

end Half

namespace Build
variable {x : Extraction} {plan : Target.Plan} {l : Target.LoaderPlan}

/-- The package shows something to others, and whatever it shows is a bound of the loader, or a
symbol that the loader's package of this name has alike and that its link has left as it was. -/
structure Provided (x : Extraction) (package : Text) : Prop where
  shows : ∃ s ∈ x.applicationSymbols.symbols, s.isLocal = false ∧ s.package = package
  provided : ∀ s ∈ x.applicationSymbols.symbols, s.isLocal = false → s.package = package →
    s.name ∈ boundarySymbols ∨ s.name ∉ rootSymbols ∧
      (∃ other, x.loaderSymbols.find? s.name = some other ∧ other.package = s.package ∧
        other.flags = s.flags ∧ other.size = s.size) ∧
      ∃ link, x.linked.find? s.name = some link ∧ link.flags = s.flags ∧ link.size = s.size

private theorem retained_iff {s : Symbol} (hs : s ∈ x.applicationSymbols.symbols) :
    Retained x.loaderSymbols x.applicationSymbols x.linked s.name ↔
      s.name ∉ rootSymbols ∧
      (∃ other, x.loaderSymbols.find? s.name = some other ∧ other.package = s.package ∧
        other.flags = s.flags ∧ other.size = s.size) ∧
      ∃ link, x.linked.find? s.name = some link ∧ link.flags = s.flags ∧ link.size = s.size := by
  constructor
  · rintro ⟨hroot, other, s', link, hother, hs', hlink, ⟨hflags, hsize, hpackage⟩, hkept, hsame⟩
    obtain rfl := Option.some.inj ((SymbolTable.find?_name hs).symm.trans hs')
    exact ⟨hroot, ⟨other, hother, hpackage, hflags, hsize⟩, link, hlink, hkept ▸ hflags, hsame ▸ hsize⟩
  · rintro ⟨hroot, ⟨other, hother, hpackage, hflags, hsize⟩, link, hlink, hkept, hsame⟩
    exact ⟨hroot, other, s, link, hother, SymbolTable.find?_name hs, hlink,
      ⟨hflags, hsize, hpackage⟩, hflags.trans hkept.symm, hsize.trans hsame.symm⟩

/-- When the exports were made for the two halves, the packages that are provided are taken. -/
theorem taken_exportTable_iff :
    Sharing.Taken x.applicationSymbols
        (LoaderImage.exportTable x.loaderSymbols x.applicationSymbols x.linked) package ↔
      Provided x package := by
  have hname {s : Symbol} (hs : s ∈ x.applicationSymbols.symbols) :=
    LoaderImage.mem_names_exportTable.trans (or_congr_right (retained_iff (x := x) hs))
  constructor
  · rintro ⟨hshows, hexported⟩
    exact ⟨hshows, fun s hs hvisible hpackage => (hname hs).1 (hexported s hs hvisible hpackage)⟩
  · rintro ⟨hshows, hprovided⟩
    exact ⟨hshows, fun s hs hvisible hpackage => (hname hs).2 (hprovided s hs hvisible hpackage)⟩

theorem mem_packageNames {names : List Document} {texts : List Text}
    (h : packageNames names = .ok texts) : package ∈ texts ↔ ∃ d ∈ names, d.text? = some package := by
  unfold packageNames at h
  split at h
  · cases h
    simp
  · cases h

/-- The application's half in a first build has the archives of its packages. -/
theorem application_of_halves {loader : Half} {s s' : Workshop × World}
    (hnew : s.1.application.archives = []) (hr : halves plan loader s = .ok x s') :
    s'.1.application = x.application ∧ (∃ archives, x.application = { s.1.application with archives }) ∧
      x.application.shelf = s.1.application.stock s.1.application.packages := by
  obtain ⟨hworkshop, w₁, -, happlication⟩ := halves_steps hr
  obtain ⟨w₂, hbuild, -⟩ := buildApplication_steps happlication
  rw [hworkshop]
  exact ⟨rfl, Half.shelf_of_build hnew hbuild⟩

/-- The decision about the packages. -/
theorem mem_commonPackages_of_settle {j : Settlement} {s s' : Workshop × World}
    (hr : settle plan l x s = .ok j s') :
    package ∈ j.commonPackages ↔ plan.board.name.text? ≠ some package ∧
      plan.application.name.text? ≠ some package ∧
      Sharing.Taken x.applicationSymbols j.exported package := by
  obtain ⟨-, -, ⟨keep, hkeep, hcommon⟩, -⟩ := settle_steps hr
  rw [hcommon, Sharing.mem_commonPackages, mem_packageNames hkeep, ← and_assoc]
  simp

/-- When the loader image was made anew, the packages that are provided are taken. -/
theorem taken_iff_of_settle {j : Settlement} {s s' : Workshop × World}
    (hr : settle plan l x s = .ok j s') (hmade : j.regenerated = true) :
    Sharing.Taken x.applicationSymbols j.exported package ↔ Provided x package := by
  obtain ⟨-, -, -, w, hreconcile, -⟩ := settle_steps hr
  obtain ⟨w₁, -, hrest⟩ := reconcile_steps hreconcile
  rw [hmade, if_pos rfl] at hrest
  obtain ⟨_, _, _, _, hexports, -⟩ := build_steps hrest
  rw [LoaderImage.eq_exportTable_of_eq_ok hexports, taken_exportTable_iff]

end Build

namespace Round
variable {r : Round}

/-- What a split build decides before it links its application, and the world at that moment. -/
def settled? (r : Round) : Option (Build.Settlement × World) :=
  match r.workshop.loader, r.workshop.plan.loader with
  | some loader, some l =>
    match (Build.halves r.workshop.plan loader >>= Build.settle r.workshop.plan l)
        (r.workshop, r.before) with
    | .ok j s => some (j, s.2)
    | .error .. => none
  | _, _ => none

/-- A split build that succeeds goes through all its stages. -/
theorem split_steps (hsplit : r.workshop.isSplit = true) {result : BuildResult}
    {s' : Workshop × World} (hok : r.run = .ok result s') :
    ∃ loader l x j s s₁, r.workshop.loader = some loader ∧ r.workshop.plan.loader = some l ∧
      Build.halves r.workshop.plan loader (r.workshop, r.before) = .ok x s ∧
      Build.settle r.workshop.plan l x s = .ok j s₁ ∧ Build.conclude l x j s₁ = .ok result s' ∧
      r.compared? = some (x, s.2) ∧ r.settled? = some (j, s₁.2) := by
  rcases r.run_cases with ⟨hsingle, -⟩ | ⟨-, loader, l, hloader, hl, hrun, hcompared⟩
  · rw [hsplit] at hsingle
    cases hsingle
  · rw [hrun] at hok
    obtain ⟨x, s, hhalves, hok⟩ := Action.bind_eq_ok_iff.1 hok
    rw [Build.finish_eq] at hok
    obtain ⟨j, s₁, hsettle, hconclude⟩ := Action.bind_eq_ok_iff.1 hok
    refine ⟨loader, l, x, j, s, s₁, hloader, hl, hhalves, hsettle, hconclude, hcompared x s hhalves, ?_⟩
    unfold settled?
    rw [hloader, hl]
    dsimp only
    rw [Action.bind_of_ok hhalves, hsettle]

/-- In a first build the application has the archives of its packages, and it links those of them
that it does not take from the loader. -/
theorem shelf_of_settle {t : Target} (hnew : Workshop.ofTarget t = .ok r.workshop) {loader : Half}
    {l : Target.LoaderPlan} {x : Build.Extraction} {j : Build.Settlement} {s s₁ : Workshop × World}
    (hhalves : Build.halves r.workshop.plan loader (r.workshop, r.before) = .ok x s)
    (hsettle : Build.settle r.workshop.plan l x s = .ok j s₁) :
    x.application.shelf = r.workshop.application.stock
        (r.workshop.plan.board.package :: r.workshop.plan.application.packages) ∧
      (∃ archives, x.application = { r.workshop.application with archives }) ∧
      (∃ packages, j.application = { x.application with packages }) ∧
      j.application.shelf = x.application.shelf.filter fun e => e.1 ∉ j.commonPackages := by
  obtain ⟨plan, hplan, hfresh⟩ := Target.ofTarget_eq_ok hnew
  obtain ⟨happlication, ⟨archives, hbuilt⟩, hstock⟩ :=
    Build.application_of_halves (by rw [hfresh]; rfl) hhalves
  have hboard : ∀ name ∈ j.commonPackages, x.application.boardName.text? ≠ some name := by
    intro name hname
    have h := ((Build.mem_commonPackages_of_settle hsettle).1 hname).1
    rw [hfresh] at hbuilt h
    rw [hbuilt]
    exact h
  obtain ⟨-, hremoved, -⟩ := Build.settle_steps hsettle
  rw [happlication] at hremoved
  refine ⟨hstock.trans ?_, ⟨archives, hbuilt⟩, ⟨_, Half.removePackages_eq_ok hremoved⟩,
    Half.shelf_of_removePackages hremoved hboard⟩
  rw [hfresh]
  rfl

/-- How a build ends that has settled its packages: the linker is given the archives of the application
as they were settled, and symbols are listed at most afterwards. -/
theorem linkedBy_of_conclude {l : Target.LoaderPlan} {x : Build.Extraction} {j : Build.Settlement}
    {result : BuildResult} {s s' : Workshop × World}
    (hr : Build.conclude l x j s = .ok result s') :
    j.application.archivePaths = .ok (j.application.shelf.map (·.2)) ∧
      result.application = j.application.binary ∧
      ∃ command w, j.application.compiler.linkCommand (j.application.shelf.map (·.2)) l.secondScript
          j.application.binary [x.loader.loaderImage] = .ok command ∧
        j.application.link l.secondScript [x.loader.loaderImage] s.2 = .ok result.application w ∧
        Compiler.LinkedBy command j.application.binary
          (j.application.shelf.map (·.2) ++ [x.loader.loaderImage, l.secondScript]) s.2 w ∧
        World.Quiet Command.Lists w s'.2 := by
  obtain ⟨-, -, -, -, -, w, hlink, w', hreport, hsaid⟩ := Build.conclude_steps hr
  obtain ⟨_, v, hlift, hlinked⟩ := Action.bind_eq_ok_iff.1 hlink
  obtain ⟨harchives, rfl⟩ := World.lift_eq_ok_iff.1 hlift
  obtain rfl := Half.archivePaths_eq_ok harchives
  obtain ⟨hbinary, command, hcommand, hgiven⟩ := Compiler.linkedBy_of_link hlinked
  rw [List.append_assoc, List.singleton_append] at hgiven
  have hreported := ((Build.answers_reportDifferences ..).of_ok hreport).2
  exact ⟨harchives, hbinary, command, w, hcommand, hlink, hgiven, trans_of _ hreported hsaid.quiet⟩

/-- Which packages the application of a split image links itself, when the build made the loader
image: exactly those with an archive that the loader does not provide, in the order of the target. They
are the archives in the command of the link, which stands in the record beside the binary and is run
unless the binary is up to date with all of them. -/
theorem application_archives {t : Target} (hnew : Workshop.ofTarget t = .ok r.workshop)
    (hsplit : t.isSplit = true) {result : BuildResult} {s' : Workshop × World}
    (hok : r.run = .ok result s') (hmade : result.regenerated = true) :
    ∃ x v, r.compared? = some (x, v) ∧ x.Of r.before.tools ∧
      x.loader.linkedTable r.before.tools = .ok x.linked ∧
      x.application.shelf = r.workshop.application.stock
        (r.workshop.plan.board.package :: r.workshop.plan.application.packages) ∧
      (∀ package, package ∈ result.commonPackages ↔
        r.workshop.plan.board.name.text? ≠ some package ∧
        r.workshop.plan.application.name.text? ≠ some package ∧ Build.Provided x package) ∧
      ∃ j u, r.settled? = some (j, u) ∧
        j.application.archivePaths =
          .ok ((x.application.shelf.filter fun e => e.1 ∉ result.commonPackages).map (·.2)) ∧
        ∃ l w, r.workshop.plan.loader = some l ∧
          j.application.link l.secondScript [x.loader.loaderImage] u = .ok result.application w ∧
          result.application = r.workshop.application.binary ∧
          ∃ archives gcc flags command,
            archives =
              (x.application.shelf.filter fun e => e.1 ∉ result.commonPackages).map (·.2) ∧
            r.workshop.application.compiler.tool "gcc" = .ok gcc ∧
            World.words r.workshop.application.compiler.linkFlags = .ok flags ∧
            command = gcc :: "-o" :: result.application.toText :: (flags ++
              ("-T" ++ l.secondScript.toText) ::
              ("-Wl,-Map=" ++ result.application.toText ++ ".map") ::
              ("-Wl,--just-symbols=" ++ x.loader.loaderImage.toText) ::
              ("-Wl,--start-group" : Text) ::
              (archives.map Path.toText ++ [("-Wl,--end-group" : Text)])) ∧
            Compiler.LinkedBy command result.application
              (archives ++ [x.loader.loaderImage, l.secondScript]) u w ∧
            World.Quiet Command.Lists w s'.2 := by
  have hsplit' : r.workshop.isSplit = true := (Target.isSplit_of_ofTarget hnew).trans hsplit
  obtain ⟨loader, l, x, j, s, s₁, hloader, hl, hhalves, hsettle, hconclude, hcompared, hsettled⟩ :=
    split_steps hsplit' hok
  obtain ⟨-, hcommon, -, hregenerated, -⟩ := Build.conclude_steps hconclude
  obtain ⟨harchives, hbinary, command, w, hcommand, hlink, hgiven, hquiet⟩ :=
    linkedBy_of_conclude hconclude
  obtain ⟨hof, hlinked⟩ := Build.halves_of hhalves
  obtain ⟨hstock, ⟨recorded, hx⟩, ⟨packages, hj⟩, hshelf⟩ := shelf_of_settle hnew hhalves hsettle
  obtain ⟨gcc, flags, hgcc, hflags, hwords⟩ := Compiler.linkCommand_eq_ok hcommand
  have hcompiler : j.application.compiler = r.workshop.application.compiler := by rw [hj, hx]
  have hsame : j.application.binary = r.workshop.application.binary := by rw [hj, hx]; rfl
  rw [hcompiler] at hgcc hflags
  rw [← hbinary] at hwords hgiven
  rw [hshelf] at harchives hwords hgiven
  rw [hcommon]
  refine ⟨x, s.2, hcompared, hof, hlinked, hstock, fun package => ?_, j, s₁.2, hsettled, harchives, l,
    w, hl, hlink, hbinary.trans hsame, _, gcc, flags, command, rfl, hgcc, hflags, hwords, hgiven,
    hquiet⟩
  rw [Build.mem_commonPackages_of_settle hsettle,
    Build.taken_iff_of_settle hsettle (hregenerated.symm.trans hmade)]

/-- The linked loader, as it is listed. -/
def dividedLoader : String :=
  "00000400 g     F .text\t00000008 f\n" ++ "00000800 g       .text\t00000000 __etext\n"

/-- The application's archive of the package q: a function, a variable in a section that is not
examined, and a bound. -/
def dividedShared : String :=
  "00000000 g     F .text\t00000008 f\n" ++ "00000000 g     O .noinit\t00000004 v\n" ++
    "00000010 g       .text\t00000000 __etext\n"

/-- The archive of the application's other package. -/
def dividedOwn : String := "00000000 g     F .text\t00000008 h\n"

/-- Both halves have the package q, whose archives agree on the function. -/
def dividedRound : Round where
  workshop := History.exampleWorkshop
    [History.examplePackage "q" "q.c", History.examplePackage "p" "p.c"]
  before := { History.exampleStart with
    tools := ⟨[], [("o/loader/lib/q.a", "00000000 g     F .text\t00000008 f\n"),
      ("o/loader/loader.elf", dividedLoader), ("o/app/lib/q.a", dividedShared),
      ("o/app/lib/p.a", dividedOwn)]⟩ }

/-- The application is linked of the archive of p alone, against the loader image. -/
def dividedLink : Command :=
  ["gcc", "-o", "o/app/app.elf", "-Ts", "-Wl,-Map=o/app/app.elf.map",
    "-Wl,--just-symbols=o/loader/loader_rom.elf", "-Wl,--start-group", "o/app/lib/p.a",
    "-Wl,--end-group"]

private theorem dividedRound_facts :
    (answer? dividedRound.run).map (fun result => (result.regenerated, result.commonPackages)) =
        some (true, [Text.ofString "q"]) ∧
      dividedRound.after.commands.getLast? = some dividedLink ∧
      dividedRound.compared?.map (·.1.loader.loaderImage) =
        some ⟨.relative, ["o", "loader", "loader_rom.elf"]⟩ := by
  decide +kernel

theorem dividedRound_eq_ok : ∃ result s', dividedRound.run = .ok result s' ∧
    result.regenerated = true ∧ result.commonPackages = [Text.ofString "q"] := by
  obtain ⟨result, hresult, hfacts⟩ := Option.map_eq_some_iff.1 dividedRound_facts.1
  obtain ⟨hmade, hcommon⟩ := Prod.mk.inj hfacts
  exact ⟨result, _, eq_ok_of_answer? hresult, hmade, hcommon⟩

theorem application_archives_divided :
    ∃ result s', dividedRound.run = .ok result s' ∧ result.commonPackages = [Text.ofString "q"] ∧
      (∃ x v, dividedRound.compared? = some (x, v) ∧ Build.Provided x "q" ∧ ¬ Build.Provided x "p" ∧
        ∃ j u, dividedRound.settled? = some (j, u) ∧
          j.application.archivePaths = .ok [⟨.relative, ["o", "app", "lib", "p.a"]⟩] ∧
          ∃ w, Compiler.LinkedBy dividedLink ⟨.relative, ["o", "app", "app.elf"]⟩
              [⟨.relative, ["o", "app", "lib", "p.a"]⟩,
                ⟨.relative, ["o", "loader", "loader_rom.elf"]⟩, ⟨.relative, ["s"]⟩] u w ∧
            World.Quiet Command.Lists w s'.2) ∧
      s'.2.commands.getLast? = some dividedLink := by
  obtain ⟨result, s', hok, hmade, hcommon⟩ := dividedRound_eq_ok
  obtain ⟨x, v, hcompared, -, -, hshelf, hmem, j, u, hsettled, harchives, l, w, hl, -, hbinary, _, _, _,
    _, rfl, hgcc, hflags, rfl, hgiven, hquiet⟩ :=
    application_archives (History.ofTarget_exampleTarget _) rfl hok hmade
  obtain ⟨-, hlast, himage⟩ := dividedRound_facts
  rw [hcompared] at himage
  have himage := Option.some.inj himage
  have hstay : (x.application.shelf.filter fun e => e.1 ∉ result.commonPackages).map (·.2) =
      [⟨.relative, ["o", "app", "lib", "p.a"]⟩] := by
    rw [hshelf, hcommon]
    decide
  rw [hstay] at harchives hgiven
  rw [hbinary] at hgiven
  cases hl
  cases hgcc
  cases hflags
  dsimp only at himage
  rw [himage] at hgiven
  rw [hcommon] at hmem
  refine ⟨result, s', hok, hcommon, ⟨x, v, hcompared, ((hmem "q").1 (by decide)).2.2, ?_, j, u,
    hsettled, harchives, w, hgiven, hquiet⟩, ?_⟩
  · exact fun hp => absurd ((hmem "p").2 ⟨by decide, by decide, hp⟩) (by decide)
  · rw [Round.after, hok] at hlast
    exact hlast

end Round
end DualImage
