import DualImage.Proofs.Build.Propagation
import DualImage.Proofs.Build.Refusal
import DualImage.Proofs.Half.Linking
import DualImage.Proofs.Half.Places

/-! A build that has succeeded needs no more work: what each stage makes is as new as its inputs, and
the stages after it write elsewhere. -/
namespace DualImage
open DualImage.Path (IsPart)
open Half (imagePath applicationPath place_below place_ne_of_name beside_below name_below)
open Command (Builds Planned)
variable {dir : Path} {here place : Place} {plan : Target.Plan} {l : Target.LoaderPlan} {since : World}

/-- Names below the directory of a build tell places apart. -/
private theorem apart_of_name {a b c d ending : String} (longer : String)
    (ha : IsPart (a : Text) ∧ (a : Text) ≠ "..") (hb : IsPart (b : Text) ∧ (b : Text) ≠ "..")
    (hc : IsPart (c : Text) ∧ (c : Text) ≠ "..") (hd : IsPart (d : Text) ∧ (d : Text) ≠ "..")
    (hlong : IsPart (longer : Text) ∧ (longer : Text) ≠ "..")
    (hname : (b : Text) ++ (ending : Text) = longer)
    (hne : (d : Text) ≠ b ∧ (d : Text) ≠ longer) :
    ((dir.child a).child b).Apart ending here (((dir.child c).child d).place here) := by
  refine ⟨place_ne_of_name hc hd ha hb hne.1 here, fun q hq => ?_⟩
  rw [beside_below longer hb.1 hlong.1 hname hq]
  exact place_ne_of_name hc hd ha hlong hne.2 here

private theorem apart_of_outside {a b ending : String} (longer : String)
    (ha : IsPart (a : Text) ∧ (a : Text) ≠ "..") (hb : IsPart (b : Text) ∧ (b : Text) ≠ "..")
    (hlong : IsPart (longer : Text) ∧ (longer : Text) ≠ "..")
    (hname : (b : Text) ++ (ending : Text) = longer)
    (hplace : ¬ dir.place here <+: place) : ((dir.child a).child b).Apart ending here place := by
  refine ⟨?_, fun q hq => ?_⟩
  · rintro rfl
    rw [place_below ha hb, List.append_assoc] at hplace
    exact hplace (List.prefix_append ..)
  · rintro rfl
    rw [beside_below longer hb.1 hlong.1 hname hq, place_below ha hlong, List.append_assoc] at hplace
    exact hplace (List.prefix_append ..)

namespace Half
variable {loader application : Half} (hl : loader.LiesIn "loader" dir)
  (ha : application.LiesIn "app" dir)

private theorem place_directory {h : Half} {name : String} (hh : h.LiesIn name dir)
    (hname : name = "app" ∨ name = "loader") (here : Place) :
    h.directory.place here = dir.place here ++ [(name : Text)] := by
  rw [(directory_eq (hh.1.symm ▸ hname)).2, hh.1, hh.2]

include hl ha in
/-- What is in the directory of the loader is not in that of the application. -/
private theorem not_below_application (h : loader.directory.place here <+: place) :
    ¬ application.directory.place here <+: place := by
  intro h'
  have hname := name_eq_of_below (.inr hl.1) (.inl ha.1) (hl.2.trans ha.2.symm) h h'
  rw [hl.1, ha.1] at hname
  exact absurd hname (by decide)

include hl in
private theorem below_loader {b : String} (hb : IsPart (b : Text) ∧ (b : Text) ≠ "..")
    (here : Place) : loader.directory.place here <+: ((dir.child "loader").child b).place here := by
  rw [place_directory hl (.inr rfl), place_below (by decide) hb]
  exact List.prefix_append ..

include hl in
private theorem below_binary (here : Place) :
    loader.directory.place here <+: loader.binary.place here := by
  rw [hl.binary_eq "loader.elf" rfl]
  exact below_loader hl (by decide) here

include hl in
private theorem below_record {record : Path}
    (hrecord : Compiler.beside loader.binary ".cmd" = .ok record) (here : Place) :
    loader.directory.place here <+: record.place here := by
  rw [hl.binary_eq "loader.elf" rfl] at hrecord
  rw [beside_below "loader.elf.cmd" (by decide) (by decide) rfl hrecord]
  exact below_loader hl (by decide) here

end Half

namespace Build
open Half (imagePath)
variable {x : Extraction} {j : Settlement} {s s' : Workshop × World}

/-- Both halves have been built and the loader has been linked, and none of it needs more work. -/
private structure Halfway (plan : Target.Plan) (loader application : Half) (x : Extraction)
    (since d : Disk) : Prop where
  loaderUpheld : loader.Upheld since d
  applicationUpheld : application.Upheld since d
  linked : x.loader.Linked plan.linkerScript [] d
  stocked : x.loader.shelf = loader.stock loader.packages ∧
    x.application.shelf = application.stock application.packages

namespace Halfway
variable {loader application : Half} {since d d' : Disk}
  (h : Halfway plan loader application x since d)
include h

/-- The archives of both halves are files that they have made. -/
private theorem of_mem_shelf {p : Path} (hp : p ∈ x.shelf.map (·.2)) :
    d.HasFile p ∧ p ∈ loader.outputs ++ application.outputs := by
  rw [Extraction.shelf, List.map_append, h.stocked.1, h.stocked.2] at hp
  rcases List.mem_append.1 hp with hp | hp
  · exact (h.loaderUpheld.of_mem_stock hp).imp_right (List.mem_append_left _)
  · exact (h.applicationUpheld.of_mem_stock hp).imp_right (List.mem_append_right _)

private theorem hasFile : ∀ p ∈ x.inputs, d.HasFile p := by
  obtain ⟨record, command, -, -, hcurrent⟩ := h.linked
  exact List.forall_mem_cons.2
    ⟨hcurrent.hasFile _ List.mem_cons_self, fun p hp => (h.of_mem_shelf hp).1⟩

/-- Nothing more has to be done while nothing is written that this was made of. -/
private theorem leaving {S : Place → Prop} (hd : Disk.Leaving S d d')
    (houtputs : ∀ p ∈ loader.outputs ++ application.outputs, S (p.place d.here))
    (hbinary : S (x.loader.binary.place d.here))
    (hrecord : ∀ record, Compiler.beside x.loader.binary ".cmd" = .ok record → S (record.place d.here))
    (hscript : S (plan.linkerScript.place d.here)) :
    Halfway plan loader application x since d' := by
  obtain ⟨hloader, happlication⟩ := List.forall_mem_append.1 houtputs
  refine ⟨h.loaderUpheld.leaving hd hloader, h.applicationUpheld.leaving hd happlication,
    h.linked.leaving hd hbinary hrecord fun p hp => ?_, h.stocked⟩
  rw [List.append_nil, List.mem_append, List.mem_singleton] at hp
  rcases hp with hp | rfl
  · rw [h.stocked.1] at hp
    exact hloader p (h.loaderUpheld.of_mem_stock hp).2
  · exact hscript

end Halfway

section
variable {loader : Half} (hloader : loader.Ready since.disk)
  (hscript : since.disk.HasFile plan.linkerScript) (htext : plan.linkerScript.toText.IsUnreturned)
include hloader hscript htext

/-- The loader needs no more work when it has been built and linked. -/
private theorem linked_of_buildLoader {w w' : World} {symbols linked : SymbolTable} {loader' : Half}
    (hu : Underway Builds since w)
    (hr : buildLoader plan (loader, w) = .ok (symbols, linked) (loader', w'))
    (hfiles : ∀ p ∈ loader.binary :: loader.outputs,
      ¬ w'.disk.files.IsDirectory (p.place since.disk.here)) :
    loader.Upheld since.disk w'.disk ∧ loader'.Linked plan.linkerScript [] w'.disk ∧
      (∃ archives, loader' = { loader with archives }) ∧
      loader'.shelf = loader.stock loader.packages := by
  obtain ⟨w₁, w₂, w₃, hbuild, ⟨binary, hlink⟩, hextract, hread⟩ := buildLoader_steps hr
  have hsame : w'.disk = w₂.disk := ((loader'.answers_readBinary w₃).of_ok hread).2.unmoved.disk.trans
    ((loader'.answers_extractSymbols w₂).of_ok hextract).2.unmoved.disk
  rw [hsame] at hfiles ⊢
  obtain ⟨hupheld, hlinked⟩ := hloader.linked hu hscript htext hbuild hlink hfiles
  exact ⟨hupheld, hlinked, Half.shelf_of_build (s := (loader, w)) hloader.unbuilt hbuild⟩

/-- Both halves need no more work when they have been built, and neither does the link of the
loader. -/
private theorem halfway_of_halves (hl : loader.LiesIn "loader" dir)
    (ha : s.1.application.LiesIn "app" dir) (happlication : s.1.application.Ready since.disk)
    (hu : Underway Builds since s.2)
    (hplace : ¬ dir.place since.disk.here <+: plan.linkerScript.place since.disk.here)
    (hr : halves plan loader s = .ok x s')
    (hfiles : ∀ p ∈ loader.binary :: (loader.outputs ++ s.1.application.outputs),
      ¬ s'.2.disk.files.IsDirectory (p.place since.disk.here)) :
    Halfway plan loader s.1.application x since.disk s'.2.disk := by
  obtain ⟨-, w, hbuilt, happlied⟩ := halves_steps hr
  obtain ⟨w', hbuild, hextract⟩ := buildApplication_steps happlied
  have hcourse := course_progress Builds
  have hw := hu.next (of_buildLoader hcourse hloader.regular.issues hbuilt).2
  have hstep := (of_buildApplication hcourse happlication.regular.issues happlied).2
  rw [List.forall_mem_cons, List.forall_mem_append] at hfiles
  obtain ⟨hbinaryFile, hloaderFiles, happlicationFiles⟩ := hfiles
  obtain ⟨hupheld, hlinked, ⟨archives, hx⟩, hstock⟩ := linked_of_buildLoader hloader hscript htext
    hu hbuilt (List.forall_mem_cons.2 ⟨hw.not_isDirectory hstep hbinaryFile, fun p hp =>
      hw.not_isDirectory hstep (hloaderFiles p hp)⟩)
  have hxl : x.loader.LiesIn "loader" dir := hx ▸ hl
  have hstock' : x.application.shelf = s.1.application.stock s.1.application.packages :=
    (Half.shelf_of_build (s := (s.1.application, w)) happlication.unbuilt hbuild).2
  rw [((x.application.answers_extractSymbols w').of_ok hextract).2.unmoved.disk] at happlicationFiles ⊢
  -- what is in the directory of the loader is still as it was
  have hleft := happlication.regular.leaving_of_build since.disk.here hbuild
    hw.progressed.disk.grounded hw.here
  have hbelow {p : Path} (hp : loader.directory.place since.disk.here <+: p.place since.disk.here) :
      ¬ s.1.application.directory.place since.disk.here <+: p.place w.disk.here := by
    rw [hw.here]
    exact Half.not_below_application hl ha hp
  have hdirectory : x.loader.directory = loader.directory := by
    rw [hx]
    rfl
  refine ⟨hupheld.leaving hleft fun p hp => ?_, ?_, hlinked.leaving hleft ?_ ?_ ?_, hstock, hstock'⟩
  · exact hbelow (hloader.regular.below_of_mem_outputs hp _)
  · exact happlication.upheld_of_build hw hbuild happlicationFiles
  · exact hbelow (hdirectory ▸ Half.below_binary hxl _)
  · exact fun record hrecord => hbelow (hdirectory ▸ Half.below_record hxl hrecord _)
  · intro p hp
    rw [hstock, List.append_nil, List.mem_append, List.mem_singleton] at hp
    rcases hp with hp | rfl
    · exact hbelow (hloader.regular.below_of_mem_outputs (hupheld.of_mem_stock hp).2 _)
    · rw [hw.here, Half.place_directory ha (.inl rfl)]
      exact fun h => hplace ((List.prefix_append ..).trans h)

end

section
variable (hl : x.loader.Regular) (hs : s.1.LiesIn dir)
include hl

/-- The loader image is as new as its inputs once the packages are settled. -/
private theorem current_of_settle (hname : x.loader.name = "loader") (hu : Underway Planned since s.2)
    (hinputs : ∀ p ∈ x.inputs, s.2.disk.HasFile p) (hr : settle plan l x s = .ok j s')
    (hfile : ¬ s'.2.disk.files.IsDirectory (x.loader.loaderImage.place since.disk.here)) :
    s'.2.disk.Current x.loader.loaderImage x.inputs := by
  have hcourse := course_progress Planned
  have hplain := hl.plain_loaderImage
  have hedit := planned_edit hplain (Half.name_loaderImage hname) (c := x.loader.compiler)
  obtain ⟨-, -, -, w, hreconcile, hsaid⟩ := settle_steps hr
  obtain ⟨w₁, hstale, hrest⟩ := reconcile_steps hreconcile
  have hchecked := World.isStale_eq_ok hstale
  have hu₁ := hu.next (hcourse.spoken _ _ hchecked)
  rw [← hchecked.unmoved.disk] at hinputs
  rw [hsaid.unmoved.disk] at hfile ⊢
  cases hregenerated : j.regenerated with
  | true =>
    rw [hregenerated, if_pos rfl] at hrest
    obtain ⟨w₂, w₃, w₄, p, hexports, hspoken, hcopy, hrename⟩ := build_steps hrest
    obtain ⟨tool, shown, htool, hrun⟩ := Compiler.renameSymbols_steps hrename
    have hsaid' := trans_of Spoken
      ((LoaderImage.answers_exports _ _ _ w₁).of_ok hexports).2 hspoken
    have hu₃ := hu₁.next (hcourse.spoken _ _ hsaid')
    have hstep : Progress Planned w₃ w₄ := hcourse.copyKeeping hedit hcopy
    refine (hu₃.next hstep).current_of_run (hedit _ _ htool) (output?_edit hplain htool _) hrun
      (fun q hq => (hu₃.step hstep).disk.hasFile ?_) hfile
    rw [hsaid'.unmoved.disk]
    exact hinputs q hq
  | false =>
    rw [hregenerated] at hstale hrest
    obtain ⟨rfl, hfresh⟩ := World.isStale_eq_false_iff.1 hstale
    obtain ⟨w₂, hspoken, hread⟩ := hrest
    have hlisted := ((LoaderImage.answers_readExports _ _ w₂).of_ok hread).2
    rw [hlisted.unmoved.disk, hspoken.unmoved.disk] at hfile ⊢
    rw [← hu₁.here] at hfile
    exact hfresh.current hfile hinputs

include hs

variable (here) in
/-- Settling the packages leaves alone all but the loader image and the list of what it keeps. -/
private theorem leaving_of_settle (hr : settle plan l x s = .ok j s') :
    World.Leaving here (x.loader.loaderImage.Apart ".keep" here) s.2 s'.2 := by
  have hedits : AsksImage (Command.Avoids here (x.loader.loaderImage.Apart ".keep" here))
      (Path.Avoids here (x.loader.loaderImage.Apart ".keep" here)) x.loader.loaderImage := by
    refine ⟨fun list hlist hplace => hplace.2 list hlist rfl, fun c tool words htool => ?_⟩
    exact Command.avoids_of_output (output?_edit hl.plain_loaderImage htool words)
      fun hplace => hplace.1 rfl
  exact ((obeys_settle (World.conduct_leaving here _) dir x.loader.asksDump_avoids hedits plan l).ok hr
    hs).2

variable (here) in
omit hl in
/-- The link of the application leaves alone all but its binary and its record. -/
private theorem leaving_of_conclude (hj : j.application.Regular) {result : BuildResult}
    (hr : conclude l x j s = .ok result s') :
    World.Leaving here (j.application.binary.Apart ".cmd" here) s.2 s'.2 :=
  ((obeys_conclude (World.conduct_leaving here _) dir x.loader.asksDump_avoids
    j.application.asksDump_avoids (hj.asksLink_avoids here) l).ok hr hs).2

end

/-- Linking a half writes in the directory of the build. -/
private theorem leaving_of_link {h : Half} {name : String} (hh : h.LiesIn name dir)
    (hregular : h.Regular) {script q : Path} {symbolFiles : List Path} {w w' : World}
    (hr : h.link script symbolFiles w = .ok q w') :
    World.Leaving here (¬ dir.place here <+: ·) w w' := by
  refine (hregular.leaving_of_link _ hr).mono fun place hplace => ?_
  rcases hregular.name with happ | hloader
  · rw [hh.binary_eq "app.elf" (by rw [← hh.1, happ]; rfl), ← hh.1, happ]
    exact apart_of_outside "app.elf.cmd" (by decide) (by decide) (by decide) rfl hplace
  · rw [hh.binary_eq "loader.elf" (by rw [← hh.1, hloader]; rfl), ← hh.1, hloader]
    exact apart_of_outside "loader.elf.cmd" (by decide) (by decide) (by decide) rfl hplace

/-- Building a half writes in the directory of the build. -/
private theorem leaving_of_build {h h' : Half} {name : String} (hh : h.LiesIn name dir)
    (hregular : h.Regular) {w w' : World} (hr : Half.build (h, w) = .ok () (h', w')) :
    World.Leaving here (¬ dir.place here <+: ·) w w' := by
  refine (hregular.leaving_of_build _ hr).mono fun place hplace hbelow => hplace ?_
  rw [(Half.directory_eq hregular.name).2, hh.2] at hbelow
  exact (List.prefix_append ..).trans hbelow

/-- Building both halves writes in the directory of the build. -/
private theorem leaving_of_halves {loader : Half} (hl : loader.LiesIn "loader" dir)
    (ha : s.1.application.LiesIn "app" dir) (hloader : loader.Regular)
    (happlication : s.1.application.Regular) (hr : halves plan loader s = .ok x s') :
    World.Leaving here (¬ dir.place here <+: ·) s.2 s'.2 := by
  obtain ⟨-, w, hbuilt, happlied⟩ := halves_steps hr
  obtain ⟨w₁, w₂, w₃, hbuild, ⟨binary, hlink⟩, hextract, hread⟩ := buildLoader_steps hbuilt
  obtain ⟨w₄, hbuild', hextract'⟩ := buildApplication_steps happlied
  obtain ⟨⟨archives, hx⟩, -⟩ := Half.of_build (course_progress Builds) hloader.issues hbuild
  have hx : x.loader = { loader with archives } := hx
  have hlinked : World.Leaving here (¬ dir.place here <+: ·) w₁ w₂ := by
    rw [hx] at hlink
    exact leaving_of_link (show Half.LiesIn "loader" dir { loader with archives } from hl)
      (hloader.of_archives archives) hlink
  have hquiet {v v' : World} (h : World.Quiet Command.Lists v v') :
      World.Leaving here (¬ dir.place here <+: ·) v v' := World.Unmoved.leaving h.unmoved
  have hlisted := hquiet ((x.loader.answers_extractSymbols w₂).of_ok hextract).2
  have hread := hquiet ((x.loader.answers_readBinary w₃).of_ok hread).2
  have hlisted' := hquiet ((x.application.answers_extractSymbols w₄).of_ok hextract').2
  refine trans_of (World.Leaving here _) (leaving_of_build hl hloader hbuild) ?_
  refine trans_of (World.Leaving here _) hlinked (trans_of (World.Leaving here _) hlisted ?_)
  refine trans_of (World.Leaving here _) hread ?_
  exact trans_of (World.Leaving here _) (leaving_of_build ha happlication hbuild') hlisted'

/-- Neither the loader image nor the application is there, nor what is kept beside one of them. -/
private def Early (dir : Path) (here place : Place) : Prop :=
  (imagePath dir).Apart ".keep" here place ∧ (applicationPath dir).Apart ".cmd" here place

private theorem image_apart : (applicationPath dir).Apart ".cmd" here ((imagePath dir).place here) :=
  apart_of_name "app.elf.cmd" (by decide) (by decide) (by decide) (by decide) (by decide) rfl
    (by decide)

variable (here) in
/-- What is made of the halves is written apart from the halves, and the application apart from all. -/
private theorem leaving_of_finish (hl : x.loader.Regular) (hj : j.application.Regular)
    (hs : s.1.LiesIn dir) (himage : x.loader.loaderImage = imagePath dir)
    (hbinary : j.application.binary = applicationPath dir) {t : Workshop × World} {result : BuildResult}
    (hsettle : settle plan l x s = .ok j t) (hconclude : conclude l x j t = .ok result s') :
    World.Leaving here (Early dir here) s.2 s'.2 ∧
      World.Leaving here ((applicationPath dir).Apart ".cmd" here) t.2 s'.2 := by
  have ht : t.1.LiesIn dir := ((obeys_settle conduct_anyhow dir x.loader.asks_anyhow.dump
    (asksImage_anyhow _) plan l).ok hsettle hs).1
  have hsettled := leaving_of_settle here hl hs hsettle
  have hconcluded := leaving_of_conclude here ht hj hconclude
  rw [himage] at hsettled
  rw [hbinary] at hconcluded
  exact ⟨trans_of (World.Leaving here _) (hsettled.mono fun _ => And.left)
    (hconcluded.mono fun _ => And.right), hconcluded⟩

section
variable {loader application : Half}

private theorem early_of_mem_outputs (hl : loader.Regular) (ha : application.Regular) {p : Path}
    (hp : p ∈ loader.outputs ++ application.outputs) : Early dir here (p.place here) := by
  have hpiece : (p.place here).IsPiece := (List.mem_append.1 hp).elim
    (fun hp => hl.isPiece_of_mem_outputs hp here) fun hp => ha.isPiece_of_mem_outputs hp here
  have hname {a b : Text} (hb : IsPart b) (hend : b.codes.getLast? = some (.character 'f')) :
      (((dir.child a).child b).place here).EndsIn 'f' :=
    Path.endsIn_place (by rw [name_below hb, hend]) (by decide) here
  exact ⟨hpiece.apart (hname (by decide) (by decide)) (by simp),
    hpiece.apart (hname (by decide) (by decide)) (by simp)⟩

private theorem early_of_name {c d : String} (hc : IsPart (c : Text) ∧ (c : Text) ≠ "..")
    (hd : IsPart (d : Text) ∧ (d : Text) ≠ "..")
    (hne : (d : Text) ∉
      (["loader_rom.elf", "loader_rom.elf.keep", "app.elf", "app.elf.cmd"] : List Text)) :
    Early dir here (((dir.child c).child d).place here) := by
  simp only [List.mem_cons, List.not_mem_nil, or_false, not_or] at hne
  obtain ⟨himage, hlist, hbinary, hrecord⟩ := hne
  exact ⟨apart_of_name "loader_rom.elf.keep" (by decide) (by decide) hc hd (by decide) rfl
      ⟨himage, hlist⟩,
    apart_of_name "app.elf.cmd" (by decide) (by decide) hc hd (by decide) rfl ⟨hbinary, hrecord⟩⟩

private theorem early_of_outside (h : ¬ dir.place here <+: place) : Early dir here place :=
  ⟨apart_of_outside "loader_rom.elf.keep" (by decide) (by decide) (by decide) rfl h,
    apart_of_outside "app.elf.cmd" (by decide) (by decide) (by decide) rfl h⟩

namespace Halfway
variable {since d d' : Disk} (h : Halfway plan loader application x since d) (hl : loader.Regular)
  (ha : application.Regular) (hx : x.loader.LiesIn "loader" dir)
include h hl ha hx

/-- What the loader image depends on is made before it. -/
private theorem early_of_mem_inputs {p : Path} (hp : p ∈ x.inputs) : Early dir here (p.place here) := by
  rcases List.mem_cons.1 hp with rfl | hp
  · rw [hx.binary_eq "loader.elf" rfl]
    exact early_of_name (by decide) (by decide) (by decide)
  · exact early_of_mem_outputs hl ha (h.of_mem_shelf hp).2

/-- The halves need no more work after the loader image and the application have been made. -/
private theorem finish (hd : Disk.Leaving (Early dir d.here) d d')
    (hscript : ¬ dir.place d.here <+: plan.linkerScript.place d.here) :
    Halfway plan loader application x since d' := by
  refine h.leaving hd (fun p hp => early_of_mem_outputs hl ha hp) ?_ (fun record hrecord => ?_)
    (early_of_outside hscript)
  · exact h.early_of_mem_inputs hl ha hx List.mem_cons_self
  · rw [hx.binary_eq "loader.elf" rfl] at hrecord
    rw [beside_below "loader.elf.cmd" (by decide) (by decide) rfl hrecord]
    exact early_of_name (by decide) (by decide) (by decide)

end Halfway
end

/-- The application that is linked has packages of the half, and archives that were made for it. -/
private theorem application_of_settle {loader : Half} {t : Workshop × World} (hl : loader.Regular)
    (ha : s.1.application.Regular) (hhalves : halves plan loader s = .ok x s')
    (hsettle : settle plan l x s' = .ok j t) : j.application.linkTexts ⊆ s.1.application.linkTexts ∧
      j.application.shelf ⊆ x.application.shelf := by
  obtain ⟨-, ⟨archives, hx⟩, -⟩ := of_halves (course_progress Builds) hl.issues ha.issues hhalves
  obtain ⟨-, hremoved, -⟩ := settle_steps hsettle
  rw [(halves_steps hhalves).1] at hremoved
  rw [Half.removePackages_eq_ok hremoved, hx]
  have hsub := List.filter_sublist (l := s.1.application.packages) (p := fun p =>
    !(j.commonPackages.filter (!s.1.application.boardName.isText ·)).any p.name.isText)
  exact ⟨((List.Sublist.refl _).append (hsub.filterMap _)).subset, (hsub.filterMap _).subset⟩

/-- The application is linked when the build has been concluded. -/
private theorem linked_of_conclude (hj : j.application.Regular)
    (htexts : ∀ t ∈ j.application.linkTexts, t.IsUnreturned) (hu : Underway Planned since s.2)
    {result : BuildResult} (hr : conclude l x j s = .ok result s')
    (hinputs : ∀ p ∈ j.application.shelf.map (·.2) ++ [x.loader.loaderImage] ++ [l.secondScript],
      s.2.disk.HasFile p ∧ p.toText.IsUnreturned)
    (hfile : ¬ s'.2.disk.files.IsDirectory (j.application.binary.place since.disk.here)) :
    j.application.Linked l.secondScript [x.loader.loaderImage] s'.2.disk := by
  obtain ⟨-, -, -, -, -, w, hlink, w', hreport, hsaid⟩ := conclude_steps hr
  have hsame : s'.2.disk = w.disk := hsaid.unmoved.disk.trans
    ((answers_reportDifferences x.loader j.application w).of_ok hreport).2.unmoved.disk
  rw [hsame] at hfile ⊢
  exact Half.linked_of_link hj htexts hu (fun _ => .inl) (fun p hp => (hinputs p hp).1)
    (fun p hp => (hinputs p hp).2) hlink hfile

section
variable {loader : Half} {s₁ s₂ : Workshop × World}

/-- The stages of a split build: what each of them has progressed to since the start, and what the later
ones leave alone. -/
private structure Stages (dir : Path) (x : Extraction) (j : Settlement)
    (s s₁ s₂ s' : Workshop × World) : Prop where
  loader : x.loader.Regular
  lies : x.loader.LiesIn "loader" dir
  image : x.loader.loaderImage = imagePath dir
  application : j.application.Regular
  binary : j.application.binary = applicationPath dir
  halved : Underway Planned s.2 s₁.2
  settled : Underway Planned s.2 s₂.2
  finished : Progress Planned s₁.2 s'.2
  concluded : Progress Planned s₂.2 s'.2
  early : Disk.Leaving (Early dir s₁.2.disk.here) s₁.2.disk s'.2.disk
  last : Disk.Leaving ((applicationPath dir).Apart ".cmd" s₂.2.disk.here) s₂.2.disk s'.2.disk
  outside : Disk.Leaving (¬ dir.place s.2.disk.here <+: ·) s.2.disk s'.2.disk

private theorem stages_of_finish (hl : loader.LiesIn "loader" dir) (hs : s.1.LiesIn dir)
    (hloader : loader.Regular) (happlication : s.1.application.Regular)
    (hu : Underway Builds s.2 s.2) {result : BuildResult} (hhalves : halves plan loader s = .ok x s₁)
    (hsettle : settle plan l x s₁ = .ok j s₂) (hconclude : conclude l x j s₂ = .ok result s') :
    Stages dir x j s s₁ s₂ s' := by
  obtain ⟨⟨archives, hx⟩, hxl, hj, hjbinary⟩ :=
    regular_of_settle hloader happlication hhalves hsettle
  have hlies : x.loader.LiesIn "loader" dir := by
    rw [hx]
    exact hl
  have himage : x.loader.loaderImage = imagePath dir := by
    rw [Half.loaderImage_eq hlies.1, hlies.2]
  have hbinary : j.application.binary = applicationPath dir :=
    hjbinary.trans (hs.application.binary_eq "app.elf" rfl)
  have hs₁ : s₁.1.LiesIn dir :=
    ((obeys_halves conduct_anyhow (asksIn_anyhow dir) hs hl plan).ok hhalves hs).1
  have hu₁ : Underway Planned s.2 s₁.2 := (hu.next (of_halves (course_progress Builds) hloader.issues
    happlication.issues hhalves).2.2).imp fun _ => .inl
  have hsettled := progress_settle hxl hlies.1 hsettle
  have hconcluded := progress_conclude hxl hj hconclude
  have hu₂ := hu₁.next hsettled
  have hearly {here : Place} := (leaving_of_finish here hxl hj hs₁ himage hbinary hsettle hconclude).1
    hu₁.progressed.disk.grounded
  have houtside := (leaving_of_halves hl hs.application hloader happlication hhalves
    hu.progressed.disk.grounded rfl).trans ((hearly hu₁.here).mono fun _ => early_of_outside)
  exact
    { loader := hxl
      lies := hlies
      image := himage
      application := hj
      binary := hbinary
      halved := hu₁
      settled := hu₂
      finished := trans_of (Progress Planned) hsettled hconcluded
      concluded := hconcluded
      early := hearly rfl
      last := (leaving_of_finish _ hxl hj hs₁ himage hbinary hsettle hconclude).2
        hu₂.progressed.disk.grounded rfl
      outside := houtside }

end

/-- A split build has left nothing to do: neither for its halves nor for the loader, the loader image
and the application. -/
structure Upkept (plan : Target.Plan) (l : Target.LoaderPlan) (loader application : Half)
    (x : Extraction) (j : Settlement) (d : Disk) : Prop where
  loader : loader.Rests d
  application : application.Rests d
  linked : x.loader.Linked plan.linkerScript [] d
  image : d.Current x.loader.loaderImage x.inputs
  result : j.application.Linked l.secondScript [x.loader.loaderImage] d

section
variable {loader : Half} (hl : loader.LiesIn "loader" dir) (hs : s.1.LiesIn dir)
  (hloader : loader.Ready s.2.disk) (happlication : s.1.application.Ready s.2.disk)
  (hu : Underway Builds s.2 s.2)
  (hscripts : ∀ p ∈ [plan.linkerScript, l.secondScript],
    s.2.disk.Gives dir p ∧ p.toText.IsUnreturned)
include hl hs hloader happlication hu hscripts

/-- A split build that has succeeded has left nothing to do. -/
theorem upkept {s₁ s₂ : Workshop × World} {result : BuildResult}
    (hhalves : halves plan loader s = .ok x s₁) (hsettle : settle plan l x s₁ = .ok j s₂)
    (hconclude : conclude l x j s₂ = .ok result s')
    (hfiles : ∀ p ∈ [loader.binary, loader.loaderImage, s.1.application.binary] ++
      (loader.outputs ++ s.1.application.outputs),
      ¬ s'.2.disk.files.IsDirectory (p.place s.2.disk.here)) :
    Upkept plan l loader s.1.application x j s'.2.disk ∧ Underway Planned s.2 s'.2 := by
  rw [List.forall_mem_cons, List.forall_mem_singleton] at hscripts
  obtain ⟨⟨hscript, htext⟩, hsecond, hsecondText⟩ := hscripts
  simp only [List.forall_mem_append, List.forall_mem_cons] at hfiles
  obtain ⟨⟨hloaderFile, himageFile, hbinaryFile, -⟩, hloaderFiles, happlicationFiles⟩ := hfiles
  rw [Half.loaderImage_eq hl.1, hl.2] at himageFile
  rw [hs.application.binary_eq "app.elf" rfl] at hbinaryFile
  have hstages := stages_of_finish hl hs hloader.regular happlication.regular hu hhalves hsettle
    hconclude
  have hhalf : Halfway plan loader s.1.application x s.2.disk s₁.2.disk := by
    refine halfway_of_halves hloader hscript.1 htext hl hs.application happlication hu hscript.2
      hhalves ?_
    refine List.forall_mem_cons.2
      ⟨hstages.halved.not_isDirectory hstages.finished hloaderFile, fun p hp => ?_⟩
    exact hstages.halved.not_isDirectory hstages.finished
      ((List.mem_append.1 hp).elim (hloaderFiles p) (happlicationFiles p))
  have hfinal := hhalf.finish hloader.regular happlication.regular hstages.lies hstages.early
    (by rw [hstages.halved.here]; exact hscript.2)
  have hcurrent := current_of_settle hstages.loader hstages.lies.1 hstages.halved hhalf.hasFile hsettle
    (hstages.settled.not_isDirectory hstages.concluded (hstages.image ▸ himageFile))
  obtain ⟨hsub, hshelf⟩ :=
    application_of_settle hloader.regular happlication.regular hhalves hsettle
  refine ⟨⟨?_, ?_, hfinal.linked, ?_, ?_⟩, hstages.settled.next hstages.concluded⟩
  · exact hloader.rests hfinal.loaderUpheld (hl.2 ▸ hstages.outside)
  · exact happlication.rests hfinal.applicationUpheld (hs.application.2 ▸ hstages.outside)
  · refine hstages.last.current (List.forall_mem_cons.2 ⟨?_, fun p hp => ?_⟩) hcurrent
    · rw [hstages.image]
      exact image_apart
    · exact (hhalf.early_of_mem_inputs hloader.regular happlication.regular hstages.lies hp).2
  · refine linked_of_conclude hstages.application (fun t ht => happlication.texts t (hsub ht))
      hstages.settled hconclude ?_ (hstages.binary ▸ hbinaryFile)
    simp only [List.forall_mem_append, List.forall_mem_singleton]
    refine ⟨⟨fun p hp => ?_, hcurrent.hasFile _ List.mem_cons_self, ?_⟩, ?_, hsecondText⟩
    · have hshelved : p ∈ x.application.shelf.map (·.2) := List.map_subset _ hshelf hp
      have hinput : p ∈ x.inputs := by
        rw [Extraction.inputs, Extraction.shelf, List.map_append]
        exact List.mem_cons_of_mem _ (List.mem_append_right _ hshelved)
      rw [hhalf.stocked.2] at hshelved
      exact ⟨hcurrent.hasFile p (List.mem_cons_of_mem _ hinput),
        Half.isUnreturned_of_mem_stock happlication.regular happlication.texts hshelved⟩
    · rw [hstages.image, ← hl.2, ← Half.loaderImage_eq hl.1]
      exact Half.isUnreturned_loaderImage hloader.regular hloader.texts
    · exact hstages.settled.progressed.disk.hasFile hsecond.1

end

/-- A single image that has been built needs no more work. -/
theorem rests_of_single {s s' : Half × World} {name : String} {result : BuildResult}
    (hh : s.1.LiesIn name dir) (hready : s.1.Ready s.2.disk) (hu : Underway Builds s.2 s.2)
    (hscript : s.2.disk.Gives dir plan.linkerScript) (htext : plan.linkerScript.toText.IsUnreturned)
    (hr : single plan s = .ok result s')
    (hfiles : ∀ p ∈ s.1.binary :: s.1.outputs,
      ¬ s'.2.disk.files.IsDirectory (p.place s.2.disk.here)) :
    s.1.Rests s'.2.disk ∧ s'.1.Linked plan.linkerScript [] s'.2.disk := by
  obtain ⟨w₁, w₂, hbuild, hlink, hsaid⟩ := single_steps hr
  rw [hsaid.unmoved.disk] at hfiles ⊢
  obtain ⟨hupheld, hlinked⟩ := hready.linked hu hscript.1 htext hbuild hlink hfiles
  obtain ⟨⟨archives, hsame⟩, -⟩ := Half.shelf_of_build hready.unbuilt hbuild
  rw [hsame] at hlink
  have hleft := trans_of (World.Leaving s.2.disk.here _) (leaving_of_build hh hready.regular hbuild)
    (leaving_of_link (show Half.LiesIn name dir { s.1 with archives } from hh)
      (hready.regular.of_archives archives) hlink) hu.progressed.disk.grounded rfl
  exact ⟨hready.rests hupheld (hh.2 ▸ hleft), hlinked⟩

end Build
end DualImage
