import DualImage.Proofs.Build.Propagation
import DualImage.Proofs.Build.Refusal
import DualImage.Proofs.Compiler.Defines
import DualImage.Proofs.Half.Moments
import DualImage.Proofs.Half.Places

/-! What a build compiles: only sources of its halves, each with the features of its half. -/
namespace DualImage
open Half (imagePath)
open World (Withholds)
variable {dir object : Path}

namespace Half
variable {h : Half} {c : Command} {here place : Place}

/-- The half has the command compile one of its sources to this object. -/
def Orders (h : Half) (object : Path) (c : Command) : Prop :=
  ∃ package ∈ h.packages, ∃ objectDir objects source, h.objectDir package.name = .ok objectDir ∧
    objectPaths? package.sources objectDir = some objects ∧ object ∈ objects ∧
    h.compiler.compileCommand package h.features source object = .ok c

/-- The half has the feature, or a flag says so. -/
def Gives (feature : String) (h : Half) : Prop :=
  (∃ d ∈ h.features, d.shown = .ok (feature : Text)) ∨
    ∃ flag ∈ h.compiler.compileFlags ++ h.packages.flatMap (·.flags),
      flag.text? = some (("-D" : Text) ++ (feature : Text))

namespace Orders

theorem defines (ho : h.Orders object c) {feature : String} (hfeature : .text feature ∈ h.features) :
    c.Defines feature := by
  obtain ⟨package, -, _, _, source, -, -, -, hcommand⟩ := ho
  exact Compiler.defines_of_compileCommand hcommand hfeature rfl

theorem compiles (ho : h.Orders object c) (hwrites : c.Writes here place) :
    c.Compiles here place := by
  obtain ⟨package, -, _, _, source, -, -, -, hcommand⟩ := ho
  obtain ⟨tool, rest, htool, rfl⟩ := Compiler.compileCommand_words hcommand
  exact ⟨Compiler.endsWith_of_tool htool, by simp, hwrites⟩

variable (hh : h.Regular) (ho : h.Orders object c)
include hh ho

theorem output? : c.output? = some object := by
  obtain ⟨package, hp, objectDir, objects, source, hdir, hobjects, hmem, hcommand⟩ := ho
  exact hh.output?_compile hp hdir hobjects hmem hcommand

theorem below (here : Place) : h.directory.place here <+: object.place here := by
  obtain ⟨package, hp, objectDir, objects, source, hdir, hobjects, hmem, -⟩ := ho
  exact below_object hh hp hdir hobjects hmem here

/-- The command defines the application's feature only where the half gives it. -/
theorem gives (hdefines : c.Defines "SPLIT_APPLICATION") : h.Gives "SPLIT_APPLICATION" := by
  obtain ⟨package, hp, objectDir, objects, source, hdir, hobjects, hmem, hcommand⟩ := ho
  have hsources := (hh.packages package hp).sources
  obtain ⟨stem, -, -, hstem⟩ := exists_stem_of_objectPaths hsources hobjects hmem
  have hplain : object.Plain := by
    rw [hstem]
    exact (hh.plain_objectDir hdir).child _
  rcases Compiler.given_of_defines hcommand hplain (name_objectPaths hsources hobjects hmem) hdefines
    with hgiven | ⟨flag, hflag, htext⟩
  · exact .inl hgiven
  · refine .inr ⟨flag, ?_, htext⟩
    exact (List.mem_append.1 hflag).elim (List.mem_append_left _) fun hpackage =>
      List.mem_append_right _ (List.mem_flatMap.2 ⟨package, hp, hpackage⟩)

end Orders
end Half

/-- What the command compiles to an object has been ordered by one of the halves. -/
def Workshop.Orders (workshop : Workshop) (c : Command) : Prop :=
  ∀ here place, place.EndsIn 'o' → c.Compiles here place →
    ∃ h ∈ workshop.halves, ∃ object, object.place here = place ∧ h.Orders object c

namespace Workshop
variable {workshop : Workshop} {h : Half} {image : Path}

theorem application_mem_halves (workshop : Workshop) : workshop.application ∈ workshop.halves := by
  unfold halves
  split <;> simp

private theorem not_endsIn_object {place : Place} {c : Char} {byte : UInt8} (h : place.EndsIn c)
    (hc : FileName.bytesOf? (.character c) = some [byte]) (hne : byte ≠ 111) :
    ¬ place.EndsIn 'o' :=
  fun ho => hne (h.byte_eq ho hc rfl)

variable (hobject : ∀ here, (object.place here).EndsIn 'o')
include hobject

private theorem clearOf_object {p : Path} (hp : ∀ here, ¬ (p.place here).EndsIn 'o') :
    p.ClearOf [object] := by
  intro here q hq heq
  rw [List.mem_singleton.1 hq] at heq
  exact hp here (heq ▸ hobject here)

private theorem clearOf_record {p record : Path} {ending : String}
    (hending : ending ∈ [".cmd", ".keep"]) (h : Compiler.beside p ending = .ok record) :
    record.ClearOf [object] :=
  clearOf_object hobject fun here ho =>
    ho.not_isRecord rfl (by decide) (isRecord_of_beside hending h here)

/-- A command that writes no object has not been ordered for one. -/
private theorem orders_of_output {c : Command}
    (hc : ∀ p, c.output? = some p → ∀ here, ¬ (p.place here).EndsIn 'o') :
    workshop.Orders c ∧ c.ClearOf [object] := by
  refine ⟨fun here place hplace hcompiles => ?_, fun here q hq hwrites => ?_⟩
  · obtain ⟨-, -, p, hp, rfl⟩ := hcompiles
    exact absurd hplace (hc p hp here)
  · obtain ⟨p, hp, hplace⟩ := hwrites
    rw [List.mem_singleton.1 hq] at hplace
    exact absurd (hplace ▸ hobject here) (hc p hp here)

private theorem asksDump_orders (h : Half) :
    h.AsksDump fun c => workshop.Orders c ∧ c.ClearOf [object] := by
  intro tool htool p
  refine orders_of_output hobject fun q hq => ?_
  obtain ⟨before, -, rfl⟩ := Compiler.tool_eq_ok_iff.1 htool
  rw [Command.output?_objdump] at hq
  cases hq

private theorem asks_orders (hh : h.Regular) (hmem : h ∈ workshop.halves) :
    h.Asks (fun c => workshop.Orders c ∧ c.ClearOf [object]) (Path.ClearOf [object]) where
  compile := by
    intro package hp objectDir objects hdir hobjects o ho source command hcommand
    have horders : h.Orders o command :=
      ⟨package, hp, objectDir, objects, source, hdir, hobjects, ho, hcommand⟩
    refine ⟨fun here place _ hcompiles => ⟨h, hmem, o, ?_, horders⟩,
      fun here p _ hwrites => horders.compiles hwrites⟩
    obtain ⟨-, -, q, hq, hplace⟩ := hcompiles
    rw [horders.output? hh] at hq
    cases hq
    exact hplace
  archive := by
    intro name path tool hpath htool objects
    refine orders_of_output hobject fun q hq here => ?_
    obtain ⟨before, -, rfl⟩ := Compiler.tool_eq_ok_iff.1 htool
    rw [Command.output?_ar] at hq
    have hback : some path = some q :=
      (congrArg some (hh.plain_archivePath hpath).readBack).symm.trans hq
    cases hback
    have hend := Path.endsIn_place (Half.name_archivePath hpath) (by decide) here
    exact not_endsIn_object hend rfl (by decide)
  archivePath _ _ hpath := clearOf_object hobject fun here =>
    not_endsIn_object (Path.endsIn_place (Half.name_archivePath hpath) (by decide) here) rfl (by decide)
  dump := asksDump_orders hobject h

private theorem asksLink_orders (hh : h.Regular) :
    h.AsksLink (fun c => workshop.Orders c ∧ c.ClearOf [object]) (Path.ClearOf [object]) where
  record _ hrecord := clearOf_record hobject (by simp) hrecord
  command := by
    intro archives script symbolFiles command hcommand
    refine orders_of_output hobject fun q hq here => ?_
    rw [Compiler.output?_of_linkCommand hh.plain_binary hcommand] at hq
    cases hq
    exact not_endsIn_object (hh.binary_place here).1 rfl (by decide)

private theorem asksImage_orders (hplain : image.Plain) (hname : image.name = "loader_rom.elf") :
    AsksImage (fun c => workshop.Orders c ∧ c.ClearOf [object]) (Path.ClearOf [object]) image where
  keep _ hlist := clearOf_record hobject (by simp) hlist
  edit := by
    intro c tool words htool
    refine orders_of_output hobject fun q hq here => ?_
    rw [Build.output?_edit hplain htool] at hq
    cases hq
    have hend : (image.place here).EndsIn 'f' :=
      Path.endsIn_place (by rw [hname]; decide) (by decide) here
    exact not_endsIn_object hend rfl (by decide)

end Workshop

namespace Build
variable {C : Command → Prop} {A : Path → Prop} {R : World → World → Prop} [IsPreorder World R]
  (hcourse : Course C A R) {plan : Target.Plan} {source archive : Path}
include hcourse

section
variable {s s' : Half × World} (hh : s.1.Issues C A) (hmakes : s.1.Makes source object archive)
include hh hmakes

private theorem moment_of_single {result : BuildResult} (hr : single plan s = .ok result s') :
    s.1.Moment R source object s.2 s'.2 := by
  obtain ⟨w₁, w₂, hbuild, hlink, hsaid⟩ := single_steps hr
  obtain ⟨⟨archives, hsame⟩, -⟩ := Half.of_build hcourse hh hbuild
  have hissues : s'.1.Issues C A := hsame ▸ hh.of_archives archives
  exact (Half.moment_of_build hcourse hh hmakes hbuild).before
    (trans_of R (Half.ensures_link hcourse hissues _ _ hlink) (hcourse.spoken _ _ hsaid))

private theorem moment_of_buildLoader {symbols linked : SymbolTable}
    (hr : buildLoader plan s = .ok (symbols, linked) s') :
    s.1.Moment R source object s.2 s'.2 := by
  obtain ⟨w₁, w₂, w₃, hbuild, ⟨binary, hlink⟩, hextract, hread⟩ := buildLoader_steps hr
  obtain ⟨⟨archives, hsame⟩, -⟩ := Half.of_build hcourse hh hbuild
  have hissues : s'.1.Issues C A := hsame ▸ hh.of_archives archives
  refine (Half.moment_of_build hcourse hh hmakes hbuild).before ?_
  refine trans_of R (Half.ensures_link hcourse hissues _ _ hlink) ?_
  exact trans_of R (Half.ensures_extractSymbols hcourse hissues hextract)
    (Half.ensures_readBinary hcourse hissues _ hread)

private theorem moment_of_buildApplication {symbols : SymbolTable}
    (hr : buildApplication s = .ok symbols s') : s.1.Moment R source object s.2 s'.2 := by
  obtain ⟨w, hbuild, hextract⟩ := buildApplication_steps hr
  obtain ⟨⟨archives, hsame⟩, -⟩ := Half.of_build hcourse hh hbuild
  have hissues : s'.1.Issues C A := hsame ▸ hh.of_archives archives
  exact (Half.moment_of_build hcourse hh hmakes hbuild).before
    (Half.ensures_extractSymbols hcourse hissues hextract)

end

private theorem moment_of_halves {loader h : Half} {x : Extraction} {s s' : Workshop × World}
    (hl : loader.Issues C A) (ha : s.1.application.Issues C A)
    (hh : h = loader ∨ h = s.1.application) (hmakes : h.Makes source object archive)
    (hr : halves plan loader s = .ok x s') : h.Moment R source object s.2 s'.2 := by
  obtain ⟨-, w, hbuilt, happlied⟩ := halves_steps hr
  rcases hh with rfl | rfl
  · exact (moment_of_buildLoader hcourse hl hmakes hbuilt).before
      (of_buildApplication hcourse ha happlied).2
  · exact (moment_of_buildApplication (s := (s.1.application, w)) hcourse ha hmakes happlied).after
      (of_buildLoader hcourse hl hbuilt).2

end Build

namespace Round
variable {r : Round}

/-- After a build that has succeeded with honest tools, each object of its halves is there. -/
theorem exists_object (hregular : r.workshop.Regular) (hdisk : r.before.disk.Grounded)
    (htools : r.before.tools.Honest) {h : Half} (hh : h ∈ r.workshop.halves)
    {source archive : Path} (hmakes : h.Makes source object archive) {result : BuildResult}
    {s' : Workshop × World} (hok : r.run = .ok result s') :
    s'.2.disk.files.find? (object.place r.before.disk.here) ≠ none := by
  have hcourse := course_progress Command.Planned
  have ha := hregular.application
  have hissues : r.workshop.application.Issues Command.Planned Path.Plain :=
    ha.issues.imp fun _ => .inl
  rcases r.run_cases with ⟨hsplit, hrun⟩ | ⟨hsplit, -⟩
  · obtain rfl := (Workshop.mem_halves_of_single hsplit).1 hh
    rw [hrun] at hok
    obtain ⟨t, hsingle, rfl⟩ := within_eq_ok_iff.1 hok
    exact (Build.moment_of_single (s := (r.workshop.application, r.before)) hcourse hissues hmakes
      hsingle).exists_object ha (fun _ => .inl) hdisk htools
  · obtain ⟨loader, l, x, j, s, s₁, hloader, -, hhalves, hsettle, hconclude, -, -⟩ :=
      r.split_steps hsplit hok
    obtain ⟨hl, hname⟩ := hregular.loader loader hloader
    obtain ⟨⟨archives, hx⟩, hxl, hj, -⟩ :=
      Build.regular_of_settle (s := (r.workshop, r.before)) hl ha hhalves hsettle
    have hxname : x.loader.name = "loader" := by
      rw [hx]
      exact hname
    have hhalf := (Workshop.mem_halves_of_split hsplit hloader).1 hh
    have hhr : h.Regular := hhalf.elim (· ▸ hl) (· ▸ ha)
    have hmoment := Build.moment_of_halves (s := (r.workshop, r.before)) hcourse
      (hl.issues.imp fun _ => .inl) hissues hhalf hmakes hhalves
    have hfinished := trans_of (Progress Command.Planned)
      (Build.progress_settle hxl hxname hsettle) (Build.progress_conclude hxl hj hconclude)
    exact (hmoment.before hfinished).exists_object hhr (fun _ => .inl) hdisk htools

/-- However a build ends, what it has compiled to objects was ordered by its halves, and an object that
no command compiled is the file that it was. -/
theorem withholds (hregular : r.workshop.Regular) (hs : r.workshop.LiesIn dir)
    (hobject : ∀ here, (object.place here).EndsIn 'o') :
    Withholds r.workshop.Orders [object] r.before r.after := by
  have hc := World.conduct_withholds r.workshop.Orders [object]
  have ha := hregular.application
  have happlication := Workshop.asks_orders hobject ha r.workshop.application_mem_halves
  rw [Round.after]
  rcases r.run_cases with ⟨-, hrun⟩ | ⟨hsplit, loader, l, hloader, -, hrun, -⟩
  · have hsingle : Obeys (Build.Along dir (Withholds r.workshop.Orders [object])) Failure.Technical
        (Build.onApplication (Build.single r.workshop.plan)) (r.workshop, r.before) :=
      Build.obeys_onApplication
        (Build.obeys_single hc happlication (Workshop.asksLink_orders hobject ha) r.workshop.plan)
    rw [hrun]
    exact (hsingle.keeps hs).2
  · obtain ⟨hl, hname⟩ := hregular.loader loader hloader
    have hmem := (Workshop.mem_halves_of_split hsplit hloader).2 (.inl rfl)
    have hhalves := Build.obeys_halves_of hc (hs.loader loader hloader)
      (Workshop.asks_orders hobject hl hmem) (Workshop.asksLink_orders hobject hl) happlication
      r.workshop.plan (s := (r.workshop, r.before))
    have hfinish {x : Build.Extraction} {t : Workshop × World}
        (hx : Build.halves r.workshop.plan loader (r.workshop, r.before) = .ok x t) :
        Obeys (Build.Along dir (Withholds r.workshop.Orders [object])) (fun _ => True)
          (Build.finish r.workshop.plan l x) t := by
      obtain ⟨⟨archives, hsame⟩, -⟩ := Build.of_halves (course_progress Command.Builds) hl.issues
        ha.issues hx
      have hxl : x.loader.Regular := hsame ▸ hl.of_archives archives
      have hxname : x.loader.name = "loader" := by
        rw [hsame]
        exact hname
      rw [Build.finish_eq]
      refine (Build.obeys_settle hc dir (Workshop.asksDump_orders hobject _)
        (Workshop.asksImage_orders hobject hxl.plain_loaderImage (Half.name_loaderImage hxname))
        r.workshop.plan l).bind_of_ok fun j u hj => ?_
      obtain ⟨-, -, hregular', -⟩ := Build.regular_of_settle hl ha hx hj
      exact (Build.obeys_conclude hc dir (Workshop.asksDump_orders hobject _)
        (Workshop.asksDump_orders hobject _) (Workshop.asksLink_orders hobject hregular') l).mono
        fun _ _ => trivial
    rw [hrun]
    exact (((hhalves.mono fun _ _ => trivial).bind_of_ok fun x t hx => hfinish hx).keeps hs).2

end Round
end DualImage
