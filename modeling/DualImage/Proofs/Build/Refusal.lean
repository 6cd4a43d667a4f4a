import DualImage.Proofs.Build.Remains
import DualImage.Proofs.Compiler.Withholding

/-! Builds that are refused. A target that lacks something is refused before anything is done. A clash
or a conflict of symbols is found before a binary is edited, and a package that is shared only in part
before the application is linked. -/
namespace DualImage
open Half (imagePath place_below place_ne_of_name beside_below name_below)
open DualImage.Path (IsPart)
variable {dir : Path}

/-- The linked application of a build in this directory. -/
def Half.applicationPath (dir : Path) : Path := (dir.child "app").child "app.elf"

/-- The record of the command that links the application. -/
def Half.applicationRecord (dir : Path) : Path := (dir.child "app").child "app.elf.cmd"

/-- The list of the symbols that the loader image keeps. -/
def Half.keepList (dir : Path) : Path := (dir.child "loader").child "loader_rom.elf.keep"

open Half (applicationPath applicationRecord keepList)

namespace Command

/-- The command links the application of the build in this directory. -/
def LinksApplication (dir : Path) (c : Command) : Prop :=
  c.tool.endsWith "gcc" = true ∧ ∃ rest, c.drop 1 = ("-o" : Text) :: (applicationPath dir).toText :: rest

/-- The command edits no binary, and it does not link the application. -/
def IsEarly (dir : Path) (c : Command) : Prop :=
  c.tool.endsWith "objcopy" = false ∧ ¬ c.LinksApplication dir

end Command

/-- The files that a refused build leaves alone. -/
private def protectedPaths (dir : Path) : List Path := [keepList dir, applicationRecord dir]

private theorem isRecord_of_mem {p : Path} (hp : p ∈ protectedPaths dir) (here : Place) :
    (p.place here).IsRecord := by
  rcases List.mem_cons.1 hp with rfl | hp
  · refine .inr (Path.endsIn_place ?_ (by decide) here)
    rw [keepList, name_below (by decide)]
    decide
  · rw [List.mem_singleton.1 hp]
    refine .inl (Path.endsIn_place ?_ (by decide) here)
    rw [applicationRecord, name_below (by decide)]
    decide

/-- What is made has a name that no record has. -/
private theorem clearOf_of_name {p : Path} {c : Char} {byte : UInt8}
    (hname : p.name.codes.getLast? = some (.character c)) (hdot : c ≠ '.')
    (hbyte : FileName.bytesOf? (.character c) = some [byte]) (hne : byte ≠ 100 ∧ byte ≠ 112) :
    p.ClearOf (protectedPaths dir) := by
  intro here q hq h
  have hend := Path.endsIn_place hname hdot here
  exact hend.not_isRecord hbyte hne (h ▸ isRecord_of_mem hq here)

private theorem clearOf_of_output {c : Command} {p : Path} {paths : List Path}
    (hc : c.output? = some p) (hp : p.ClearOf paths) : c.ClearOf paths := by
  rintro here q hq ⟨p', hp', hplace⟩
  rw [hc] at hp'
  cases hp'
  exact absurd hplace (hp here q hq)

namespace Compiler
variable {c : Compiler} {command : Command}

/-- A tool goes by one name. -/
private theorem tool_endsWith {name other : String} {tool : Text} (h : c.tool name = .ok tool)
    (hname : (name : Text).endsWith other = false) (hother : (other : Text).endsWith name = false) :
    tool.endsWith other = false := by
  obtain ⟨before, -, rfl⟩ := tool_eq_ok_iff.1 h
  exact Text.endsWith_append_eq_false before name other hname hother

end Compiler

/-- A command of another tool than the compiler links nothing. -/
private theorem isEarly_of_tool {c : Compiler} {name : String} {tool : Text} {arguments : Command}
    (h : c.tool name = .ok tool) (hname : name = "ar" ∨ name = "objdump") :
    Command.IsEarly dir (tool :: arguments) := by
  rcases hname with rfl | rfl
  · refine ⟨Compiler.tool_endsWith h rfl rfl, fun hlinks => ?_⟩
    exact Bool.noConfusion (hlinks.1.symm.trans (Compiler.tool_endsWith h rfl rfl))
  · refine ⟨Compiler.tool_endsWith h rfl rfl, fun hlinks => ?_⟩
    exact Bool.noConfusion (hlinks.1.symm.trans (Compiler.tool_endsWith h rfl rfl))

/-- Compiling, archiving and listing is done early, and away from what is protected. -/
private theorem asks_early (dir : Path) {h : Half} (hdir : h.buildDir.Plain) :
    h.Asks (fun c => c.IsEarly dir ∧ c.ClearOf (protectedPaths dir))
      (Path.ClearOf (protectedPaths dir)) where
  compile := by
    intro package _ _ _ _ _ object _ source command hcommand
    obtain ⟨tool, rest, htool, rfl⟩ := Compiler.compileCommand_words hcommand
    refine ⟨⟨Compiler.tool_endsWith htool rfl rfl, ?_⟩, fun here p _ hwrites => ?_⟩
    · rintro ⟨-, rest', hwords⟩
      rw [List.drop_one, List.tail_cons, List.cons.injEq] at hwords
      exact absurd hwords.1 (by decide)
    · exact ⟨Compiler.endsWith_of_tool htool, by simp, hwrites⟩
  archive := by
    intro name path tool hpath htool objects
    have hplain : path.Plain := by
      obtain ⟨t, -, -, -, rfl⟩ := Half.exists_name_of_archivePath hpath
      exact ((hdir.child _).child _).child _
    refine ⟨isEarly_of_tool htool (.inl rfl), clearOf_of_output (p := path) ?_ ?_⟩
    · obtain ⟨before, -, rfl⟩ := Compiler.tool_eq_ok_iff.1 htool
      rw [Command.output?_ar]
      exact congrArg some hplain.readBack
    · exact clearOf_of_name (Half.name_archivePath hpath) (by decide) rfl (by decide)
  archivePath _ _ hpath := clearOf_of_name (Half.name_archivePath hpath) (by decide) rfl (by decide)
  dump := by
    intro tool htool p
    refine ⟨isEarly_of_tool htool (.inr rfl), ?_⟩
    rintro here q - ⟨p', hp', -⟩
    obtain ⟨before, -, rfl⟩ := Compiler.tool_eq_ok_iff.1 htool
    rw [Command.output?_objdump] at hp'
    cases hp'

/-- The loader is linked early too, beside what is protected. -/
private theorem asksLink_early (hdir : dir.Plain) {h : Half} (hh : h.LiesIn "loader" dir) :
    h.AsksLink (fun c => c.IsEarly dir ∧ c.ClearOf (protectedPaths dir))
      (Path.ClearOf (protectedPaths dir)) := by
  have hbinary : h.binary = (dir.child "loader").child "loader.elf" := hh.binary_eq "loader.elf" rfl
  have hplain : h.binary.Plain := by
    rw [hbinary]
    exact (hdir.child _).child _
  refine ⟨fun record hrecord here p hp => ?_, fun archives script symbolFiles command hcommand => ?_⟩
  · rw [hbinary] at hrecord
    rw [beside_below "loader.elf.cmd" (by decide) (by decide) rfl hrecord]
    rcases List.mem_cons.1 hp with rfl | hp
    · exact place_ne_of_name (by decide) (by decide) (by decide) (by decide) (by decide) here
    · rw [List.mem_singleton.1 hp]
      exact place_ne_of_name (by decide) (by decide) (by decide) (by decide) (by decide) here
  · refine ⟨?_, clearOf_of_output (Compiler.output?_of_linkCommand hplain hcommand) ?_⟩
    · obtain ⟨tool, _, htool, -, rfl⟩ := Compiler.linkCommand_eq_ok hcommand
      refine ⟨Compiler.tool_endsWith htool rfl rfl, ?_⟩
      rintro ⟨-, rest', hwords⟩
      simp only [List.drop_one, List.tail_cons, List.cons.injEq, true_and] at hwords
      have hpath := congrArg Path.ofText hwords.1
      have happlication : (applicationPath dir).Plain := (hdir.child _).child _
      rw [hplain.readBack, happlication.readBack, hbinary] at hpath
      have hnames := congrArg Path.name hpath
      rw [applicationPath, name_below (by decide), name_below (by decide)] at hnames
      exact absurd hnames (by decide)
    · refine clearOf_of_name (c := 'f') ?_ (by decide) rfl (by decide)
      rw [hbinary, name_below (by decide)]
      decide

private theorem applicationRecord_subset : [applicationRecord dir] ⊆ protectedPaths dir :=
  List.subset_cons_self ..

private theorem asksDump_later (hdir : dir.Plain) {h : Half} (hh : h.LiesIn "loader" dir) :
    h.AsksDump fun c => ¬ c.LinksApplication dir ∧ c.ClearOf [applicationRecord dir] := by
  intro tool htool p
  obtain ⟨hearly, hclear⟩ := (asks_early dir (hh.2 ▸ hdir)).dump tool htool p
  exact ⟨hearly.2, fun here q hq => hclear here q (applicationRecord_subset hq)⟩

/-- The loader image is made away from the record of the application's link. -/
private theorem asksImage_later (hdir : dir.Plain) :
    AsksImage (fun c => ¬ c.LinksApplication dir ∧ c.ClearOf [applicationRecord dir])
      (Path.ClearOf [applicationRecord dir]) (imagePath dir) where
  keep := by
    intro list hlist here p hp
    rw [List.mem_singleton.1 hp,
      beside_below "loader_rom.elf.keep" (by decide) (by decide) rfl hlist]
    exact place_ne_of_name (by decide) (by decide) (by decide) (by decide) (by decide) here
  edit := by
    intro c tool words htool
    refine ⟨fun hlinks => ?_, clearOf_of_output (p := imagePath dir) ?_ fun here p hp => ?_⟩
    · exact Bool.noConfusion (hlinks.1.symm.trans (Compiler.tool_endsWith htool rfl rfl))
    · have hplain : (imagePath dir).Plain := (hdir.child _).child _
      obtain ⟨before, -, rfl⟩ := Compiler.tool_eq_ok_iff.1 htool
      rw [Command.output?_objcopy, ← List.cons_append, List.getLast?_concat, Option.map_some,
        hplain.readBack]
    · rw [List.mem_singleton.1 hp]
      exact place_ne_of_name (by decide) (by decide) (by decide) (by decide) (by decide) here

private theorem asksIn_early (hdir : dir.Plain) :
    AsksIn (fun c => c.IsEarly dir ∧ c.ClearOf (protectedPaths dir))
      (Path.ClearOf (protectedPaths dir)) (Path.ClearOf (protectedPaths dir)) dir where
  application _ hh := asks_early dir (hh.2 ▸ hdir)
  loader _ hh := asks_early dir (hh.2 ▸ hdir)
  link _ hh := asksLink_early hdir hh

/-- A workshop of the target, as it was made or as builds have left it. -/
inductive Target.Served (t : Target) : Workshop → Prop
  | made {workshop : Workshop} (h : Workshop.ofTarget t = .ok workshop) : t.Served workshop
  | left {workshop : Workshop} (h : t.Served workshop) (w : World) :
    t.Served (leaves (Build.run (workshop, w))).1

namespace Round
variable {r : Round} {f : Failure} {s : Workshop × World}
open World (Withholds)

private theorem obeys_single (dir : Path) :
    Obeys (Build.Along dir World.Anyhow) Failure.Technical
      (Build.onApplication (Build.single r.workshop.plan)) (r.workshop, r.before) :=
  Build.obeys_onApplication (Build.obeys_single conduct_anyhow (Half.asks_anyhow _)
    (Half.asksLink_anyhow _) r.workshop.plan)

/-- A build fails for technical reasons, or it is refused at one of two points, and has withheld till
then what comes after it. -/
private theorem run_eq_error (hdir : dir.Plain) (hs : r.workshop.LiesIn dir)
    (hr : r.run = .error f s) : f.Technical ∨
      ((∃ pairs, f = .conflicts pairs) ∨ ∃ name first second, f = .clash name first second) ∧
        Withholds (Command.IsEarly dir) (protectedPaths dir) r.before s.2 ∨
      (∃ package names, f = .partlyShared package names) ∧
        Withholds (¬ Command.LinksApplication dir ·) [applicationRecord dir] r.before s.2 := by
  have hc := conduct_anyhow
  rcases r.run_cases with ⟨-, hrun⟩ | ⟨-, loader, l, hloader, -, hrun, -⟩
  · exact .inl ((obeys_single dir).fails f s (hrun ▸ hr))
  have hearly := Build.obeys_halves
    (World.conduct_withholds (Command.IsEarly dir) (protectedPaths dir)) (asksIn_early hdir) hs
    (hs.loader loader hloader) r.workshop.plan (s := (r.workshop, r.before))
  rw [hrun] at hr
  rcases Action.bind_eq_error_iff.1 hr with hr | ⟨x, t, hx, hr⟩
  · obtain ⟨hkeeps, hfails⟩ := hearly
    rw [hr] at hkeeps
    exact (hfails f s hr).imp_right fun hclash => .inl ⟨.inr hclash, (hkeeps hs).2⟩
  obtain ⟨ht, hbefore⟩ : t.1.LiesIn dir ∧
      Withholds (Command.IsEarly dir) (protectedPaths dir) r.before t.2 := by
    have hkeeps := hearly.keeps
    rw [hx] at hkeeps
    exact hkeeps hs
  rw [Build.finish_eq] at hr
  rcases Action.bind_eq_error_iff.1 hr with hr | ⟨j, u, -, hr⟩
  · rcases Build.settle_eq_error hr with (hf | hshared) | ⟨hconflicts, hsaid⟩
    · exact .inl hf
    · refine .inr (.inr ⟨hshared, ?_⟩)
      have hl := Build.loader_liesIn hx ht
      have himage : x.loader.loaderImage = imagePath dir := by
        rw [Half.loaderImage_eq hl.1, hl.2]
      have hsettle := Build.obeys_settle (s := t)
        (World.conduct_withholds (¬ Command.LinksApplication dir ·) [applicationRecord dir]) dir
        (asksDump_later hdir hl) (himage ▸ asksImage_later hdir) r.workshop.plan l
      have hkeeps := hsettle.keeps ht
      rw [hr] at hkeeps
      exact trans_of (Withholds _ _)
        (hbefore.mono (fun _ => And.right) applicationRecord_subset) hkeeps.2
    · exact .inr (.inl ⟨.inl hconflicts,
        trans_of (Withholds _ _) hbefore (World.Spoken.withholds hsaid)⟩)
  · exact .inl ((Build.obeys_conclude hc dir x.loader.asks_anyhow.dump j.application.asks_anyhow.dump
      j.application.asksLink_anyhow l).fails f s hr)

end Round

namespace Target
variable {t : Target}

/-- Builds let a workshop of the target remain as it was made. -/
theorem Served.remains {workshop : Workshop} (h : t.Served workshop) :
    ∃ made, Workshop.ofTarget t = .ok made ∧ made.Remains workshop := by
  induction h with
  | made h => exact ⟨_, h, refl_of Workshop.Remains _⟩
  | @left workshop h w ih =>
    obtain ⟨made, hmade, hremains⟩ := ih
    exact ⟨made, hmade, trans_of Workshop.Remains hremains (Round.remains ⟨workshop, w⟩)⟩

theorem Served.liesIn {workshop : Workshop} (h : t.Served workshop) :
    workshop.LiesIn t.buildDir := by
  obtain ⟨made, hmade, hremains⟩ := h.remains
  obtain ⟨plan, -, rfl⟩ := ofTarget_eq_ok hmade
  refine hremains.liesIn ⟨⟨rfl, rfl⟩, fun l hl => ?_⟩
  obtain ⟨_, -, rfl⟩ := Option.map_eq_some_iff.1 hl
  exact ⟨rfl, rfl⟩

/-- What is wrong with a target is found before its build starts. -/
private theorem Served.ne_target (hplain : t.buildDir.Plain) {r : Round} (h : t.Served r.workshop)
    {f : Failure} {s : Workshop × World} (hr : r.run = .error f s) (fault : TargetFault) :
    f ≠ .target fault := by
  rintro rfl
  rcases Round.run_eq_error hplain h.liesIn hr with h | ⟨⟨_, h⟩ | ⟨_, _, _, h⟩, -⟩ | ⟨⟨_, _, h⟩, -⟩
  · exact h
  · cases h
  · cases h
  · cases h

private theorem lift_eq_error {α : Type} {r : Except Failure α} {w w' : World} {f : Failure}
    (h : World.lift r w = .error f w') : r = .error f ∧ w' = w :=
  (Answers.lift (R := Eq) r).of_error h |>.imp_right Eq.symm

/-- A refused build stops before what it should protect. When the target lacks something, nothing has
happened at all. When symbols clash or are in conflict, no binary has been edited, the application has
not been linked, and neither the list of kept symbols nor the record of that link has been written.
When a package is shared only in part, the application has not been linked and the record has not been
written. -/
theorem refused_before_protected (hplain : t.buildDir.Plain) :
    (∀ fault w w', Build.ofTarget t w = .error (.target fault) w' → w' = w) ∧
      ∀ r : Round, t.Served r.workshop → r.before.disk.Grounded → ∀ f s, r.run = .error f s →
        (∀ fault, f ≠ .target fault) ∧
        (((∃ pairs, f = .conflicts pairs) ∨ ∃ name first second, f = .clash name first second) →
          ∃ started, s.2.commands = r.before.commands ++ started ∧
            (∀ c ∈ started, c.tool.endsWith "objcopy" = false ∧ ¬ c.LinksApplication t.buildDir) ∧
            World.Untouched (keepList t.buildDir) started r.before s.2 ∧
            World.Untouched (applicationRecord t.buildDir) started r.before s.2) ∧
        ((∃ package names, f = .partlyShared package names) →
          ∃ started, s.2.commands = r.before.commands ++ started ∧
            (∀ c ∈ started, ¬ c.LinksApplication t.buildDir) ∧
            World.Untouched (applicationRecord t.buildDir) started r.before s.2) := by
  constructor
  · intro fault w w' h
    rcases Action.bind_eq_error_iff.1 h with hmade | ⟨workshop, v, hmade, hrun⟩
    · exact (lift_eq_error hmade).2
    · obtain ⟨hworkshop, rfl⟩ := World.lift_eq_ok_iff.1 hmade
      split at hrun
      · cases hrun
      · next f s hr =>
        cases hrun
        exact absurd rfl ((Served.made hworkshop).ne_target hplain (r := ⟨workshop, v⟩) hr fault)
  · intro r hserved hgrounded f s hr
    refine ⟨hserved.ne_target hplain hr, fun hf => ?_, fun hf => ?_⟩
    · rcases Round.run_eq_error hplain hserved.liesIn hr with h | ⟨-, hwithholds⟩ | ⟨⟨_, _, rfl⟩, -⟩
      · rcases hf with ⟨_, rfl⟩ | ⟨_, _, _, rfl⟩ <;> exact h.elim
      · obtain ⟨-, -, started, hcommands, hstarted, hfiles⟩ := hwithholds hgrounded
        exact ⟨started, hcommands, hstarted, hfiles _ (by simp [protectedPaths]),
          hfiles _ (by simp [protectedPaths])⟩
      · rcases hf with ⟨_, h⟩ | ⟨_, _, _, h⟩ <;> cases h
    · obtain ⟨package, names, rfl⟩ := hf
      rcases Round.run_eq_error hplain hserved.liesIn hr with h | ⟨⟨_, h⟩ | ⟨_, _, _, h⟩, -⟩ | ⟨-, hwithholds⟩
      · exact h.elim
      · cases h
      · cases h
      · obtain ⟨-, -, started, hcommands, hstarted, hfiles⟩ := hwithholds hgrounded
        exact ⟨started, hcommands, hstarted, hfiles _ (List.mem_singleton_self _)⟩

private theorem firstRound_facts :
    (match History.firstRound.run with
      | .error (.conflicts pairs) _ => pairs.map (·.name)
      | _ => []) = ["x"] ∧ History.firstRound.before.disk.Grounded := by
  decide +kernel

/-- The halves of the first example define one variable differently. -/
theorem refused_before_protected_conflict :
    ∃ pairs s started, History.firstRound.run = .error (.conflicts pairs) s ∧
      pairs.map (·.name) = ["x"] ∧
      s.2.commands = History.firstRound.before.commands ++ started ∧
      (∀ c ∈ started, c.tool.endsWith "objcopy" = false ∧ ¬ c.LinksApplication History.exampleDir) ∧
      World.Untouched (keepList History.exampleDir) started History.firstRound.before s.2 ∧
      World.Untouched (applicationRecord History.exampleDir) started History.firstRound.before s.2 := by
  obtain ⟨hfails, hgrounded⟩ := firstRound_facts
  have hserved : (History.exampleTarget [History.examplePackage "p" "p.c"]).Served
      History.firstRound.workshop := .made (History.ofTarget_exampleTarget _)
  split at hfails
  · next pairs s hr =>
    obtain ⟨-, hrefused, -⟩ := (refused_before_protected History.plain_exampleDir).2
      History.firstRound hserved hgrounded _ s hr
    obtain ⟨started, hrest⟩ := hrefused (.inl ⟨pairs, rfl⟩)
    exact ⟨pairs, s, started, hr, hfails, hrest⟩
  · cases hfails

end Target
end DualImage
