import DualImage.Proofs.Compiler.Packing
import DualImage.Proofs.Compiler.Recording
import DualImage.Proofs.Compiler.Separation

/-! Steps that fail by a command, and the same steps once more on the files that they left. What the
failed command was to make is still out of date, unless another source makes it. -/
namespace DualImage
open World

/-- The command by which an action has failed. -/
def failed? {α : Type} : EStateM.Result Failure World α → Option Command
  | .error (.command c _ _) _ => some c
  | _ => none

theorem exists_error_of_failed? {α : Type} {r : EStateM.Result Failure World α} {c : Command}
    (h : failed? r = some c) : ∃ status output, r = .error (.command c status output) (leaves r) := by
  unfold failed? at h
  split at h
  · cases h
    exact ⟨_, _, rfl⟩
  · cases h

/-- When the action has failed in the first world, and succeeds in a second one with the files that it
left, it runs the command by which it failed. -/
def Retries {α : Type} (a : Action α) (w v : World) : Prop :=
  ∀ c, failed? (a w) = some c → v.disk = (leaves (a w)).disk →
    ∀ x v', a v = .ok x v' → Ran (· = c) v v'

/-- A command that fails leaves the files alone where the directory of its output is there. -/
theorem World.run_error_of_hasDirectory {w w' : World} {c c' : Command} {p : Path} {status : Option Int}
    {output : String} (hout : c.output? = some p) (hdir : w.disk.hasDirectory p.parent = true)
    (hr : run c w = .error (.command c' status output) w') : c' = c ∧ w'.disk = w.disk := by
  obtain ⟨hf, d, rfl, hd⟩ := run_eq_error hr
  refine ⟨?_, ?_⟩
  · rcases hf with hlocal | ⟨_, _, hf⟩
    · exact hlocal.elim
    · cases hf
      rfl
  · rcases hd with rfl | ⟨q, hq, rfl⟩
    · rfl
    · cases hout.symm.trans hq
      rw [Disk.ensureDirectories_of_hasDirectory hdir]

namespace World.Ran
variable {P : Command → Prop} {c : Command} {since w w' : World}

theorem of_commands (h : w'.commands = w.commands ++ [c]) : Ran (· = c) w w' :=
  ⟨[c], h, c, List.mem_singleton_self c, rfl⟩

theorem later {more : List Command} (h : Ran P since w) (hmore : w'.commands = w.commands ++ more) :
    Ran P since w' := by
  obtain ⟨new, hcommands, c, hc, hP⟩ := h
  refine ⟨new ++ more, ?_, c, List.mem_append_left more hc, hP⟩
  rw [hmore, hcommands, List.append_assoc]

end World.Ran

namespace Disk
variable {d d' : Disk} {source object output p : Path} {inputs : List Path} {place q : Place}
  {e : Entry}

/-- The output is older than some input, if it is there. -/
def Lags (d : Disk) (output : Path) (inputs : List Path) : Prop :=
  ∀ e, d.entry output = .ok e → ∃ p ∈ inputs, ∃ i, d.entry p = .ok i ∧ e.time < i.time

/-- The object is there and no older than its source, if that is there. -/
def Abreast (d : Disk) (source object : Path) : Prop :=
  ∃ e, d.entry object = .ok e ∧ ∀ i, d.entry source = .ok i → i.time ≤ e.time

theorem Overdue.lags (h : d.Overdue output inputs) : d.Lags output inputs := by
  intro e he
  rcases h with hmissing | ⟨e', he', p, hp, hnewer⟩
  · rw [hmissing] at he
    cases he
  · cases he.symm.trans he'
    exact ⟨p, hp, hnewer⟩

theorem Lags.not_fresh (h : d.Lags output inputs) : ¬ d.Fresh output inputs := by
  rintro ⟨e, he, hinputs⟩
  obtain ⟨p, hp, hnewer⟩ := h e he
  exact Overdue.not_fresh (.inr ⟨e, he, p, hp, hnewer⟩) ⟨e, he, hinputs⟩

theorem Fresh.abreast (h : d.Fresh object [source]) : d.Abreast source object := by
  obtain ⟨e, he, hinputs⟩ := h
  obtain ⟨i, hi, hle⟩ := hinputs source (List.mem_singleton_self source)
  refine ⟨e, he, fun i' hi' => ?_⟩
  cases hi.symm.trans hi'
  exact hle

theorem Abreast.not_overdue (h : d.Abreast source object) : ¬ d.Overdue object [source] := by
  obtain ⟨e, he, hsource⟩ := h
  intro hoverdue
  obtain ⟨p, hp, i, hi, hlt⟩ := hoverdue.lags e he
  rw [List.mem_singleton.1 hp] at hi
  exact absurd (hsource i hi) (Int.not_le.2 hlt)

theorem entry_of_delete (h : d.delete p = .ok d') (e : Entry) : d'.entry p ≠ .ok e := by
  intro he
  obtain ⟨place, hplace, -, hhere, -, hfind⟩ := delete_eq_ok h
  obtain ⟨place', hplace', hfind'⟩ := entry_eq_ok_iff.1 he
  have hsame : place' = place := by
    rw [eq_place_of_locate hplace, eq_place_of_locate hplace', hhere]
  rw [hsame, hfind, if_pos rfl] at hfind'
  split at hfind' <;> cases hfind'

section
variable (hpunctual : d.Punctual) (hr : Renewed place d d')
include hr

include hpunctual in
/-- Renewing another place does not make the output catch up. -/
theorem Lags.of_renewed (h : d.Lags output inputs) (hout : output.place d.here ≠ place)
    (houtput : output.place d.here ≠ place.dropLast ∨ d.files.find? place ≠ none)
    (hinputs : ∀ p ∈ inputs, p.place d.here = place ∧ ¬ d.files.IsDirectory place ∨
      p.place d.here ≠ place ∧ (p.place d.here ≠ place.dropLast ∨ d.files.find? place ≠ none)) :
    d'.Lags output inputs := by
  intro e he
  obtain ⟨p, hp, i, hi, hlt⟩ := h e ((hr.entry_iff (hr.find?_eq hout houtput)).1 he)
  rcases hinputs p hp with ⟨hplace, hfile⟩ | ⟨hne, hkeep⟩
  · obtain ⟨q, hq, hfind⟩ := entry_eq_ok_iff.1 hi
    obtain rfl : q = place := (eq_place_of_locate hq).trans hplace
    obtain ⟨i', hi', htime⟩ := hr.entry_of_locate hq
    have hpast := hpunctual q i hfind ?_
    · exact ⟨p, hp, i', hi', by rw [htime, hr.clock]; omega⟩
    · rw [FileTree.isDirectory_iff, hfind, Option.any_some] at hfile
      exact Bool.of_not_eq_true hfile
  · exact ⟨p, hp, i, (hr.entry_iff (hr.find?_eq hne hkeep)).2 hi, hlt⟩

variable (hpunctual' : d'.Punctual) (hsource : ¬ d'.files.IsDirectory (source.place d.here))
include hpunctual' hsource

/-- What has just been renewed is abreast of every file. -/
theorem Renewed.abreast (hobject : d.locate object = .ok place) : d'.Abreast source object := by
  obtain ⟨e, he, htime⟩ := hr.entry_of_locate hobject
  refine ⟨e, he, fun i hi => ?_⟩
  obtain ⟨q, hq, hfind⟩ := entry_eq_ok_iff.1 hi
  rw [← hr.here, ← eq_place_of_locate hq, FileTree.isDirectory_iff, hfind, Option.any_some] at hsource
  rw [htime]
  exact hpunctual' q i hfind (Bool.of_not_eq_true hsource)

theorem Abreast.of_renewed (h : d.Abreast source object)
    (hkeep : source.place d.here ≠ place ∧ source.place d.here ≠ place.dropLast)
    (hobject : object.place d.here ≠ place.dropLast) : d'.Abreast source object := by
  obtain ⟨e, he, hle⟩ := h
  obtain ⟨q, hq, -⟩ := entry_eq_ok_iff.1 he
  by_cases hplace : object.place d.here = place
  · exact hr.abreast hpunctual' hsource (by rw [hq, eq_place_of_locate hq, hplace])
  · refine ⟨e, (hr.entry_iff (hr.find?_eq hplace (.inl hobject))).2 he, fun i hi => ?_⟩
    exact hle i ((hr.entry_iff (hr.find?_eq hkeep.1 (.inl hkeep.2))).1 hi)

end

end Disk

namespace Compiler
variable {c : Compiler} {w w' v v' : World}

theorem retries_archive {objects : List Path} {path : Path} (hw : w.disk.Grounded)
    (hplain : path.Plain) : Retries (c.archive objects path) w v := by
  intro command hfailed hdisk p v' hr
  obtain ⟨status, output, hfail⟩ := exists_error_of_failed? hfailed
  rcases archive_eq_error hfail with ⟨hlocal, -⟩ | ⟨d, d', hd, hoverdue, hdelete, hlast⟩
  · exact hlocal.elim
  rcases hlast with ⟨hlocal, -⟩ | ⟨tool, w₁, htool, ⟨console, rfl⟩, hrun⟩
  · exact hlocal.elim
  have hdirs := w.disk.leaves_ensureDirectories hw path.parent []
  rw [hd] at hdirs
  have hmade := Disk.hasDirectory_of_ensureDirectories hd
  -- there is no archive any more, and its directory is still there
  have hgone : (∀ e, d'.entry path ≠ .ok e) ∧ d'.ensureDirectories path.parent = (.ok (), d') := by
    split at hdelete
    · exact ⟨Disk.entry_of_delete hdelete, Disk.ensureDirectories_delete hdelete hdirs.grounded⟩
    · next hnone =>
      rw [hdelete]
      refine ⟨fun e he => hnone ?_, Disk.ensureDirectories_of_hasDirectory hmade⟩
      rw [he]
      rfl
  have hdir : d'.hasDirectory path.parent = true := Disk.hasDirectory_of_ensureDirectories hgone.2
  have hout : Command.output? (tool :: "rcs" :: path.toText :: objects.map Path.toText) =
      some path := by
    obtain ⟨before, -, rfl⟩ := tool_eq_ok_iff.1 htool
    rw [Command.output?_ar]
    exact congrArg some hplain.readBack
  obtain ⟨rfl, hsame⟩ := run_error_of_hasDirectory hout hdir hrun
  rw [hsame] at hdisk
  obtain ⟨d₂, hd₂, ⟨hfresh, -⟩ | ⟨-, tool', htool', hcommands⟩⟩ := archive_eq_ok hr
  · rw [hdisk] at hd₂
    cases hgone.2.symm.trans hd₂
    obtain ⟨e, he, -⟩ := hfresh
    exact absurd he (hgone.1 e)
  · cases htool.symm.trans htool'
    exact .of_commands hcommands

theorem retries_link {archives symbolFiles : List Path} {script output : Path}
    (hw : w.disk.Grounded) (hpunctual : w.disk.Punctual) (hplain : output.Plain) :
    Retries (c.link archives script output symbolFiles) w v := by
  intro command hfailed hdisk p v' hr
  obtain ⟨status, text, hfail⟩ := exists_error_of_failed? hfailed
  rcases link_eq_error hfail with ⟨hlocal, -⟩ | ⟨d, record, command', hd, hrecord, hcommand, hlast⟩
  · exact hlocal.elim
  rcases hlast with ⟨hlocal, -⟩ | ⟨b, d', w₁, hwrite, hoverdue, ⟨console, rfl⟩, hrun⟩
  · exact hlocal.elim
  have hdirs := w.disk.leaves_ensureDirectories hw output.parent []
  have hpast := (Disk.advances_ensureDirectories (fun _ => False) hw output.parent).punctual hpunctual
  rw [hd] at hdirs hpast
  have hne := place_ne_of_beside hplain hrecord d.here
  have hleaves := Disk.leaves_writeIfChanged hdirs.grounded (command'.text ++ "\n") hne.symm
  rw [hwrite] at hleaves
  have hdir : d'.hasDirectory output.parent = true := by
    obtain ⟨above, habove, hthere⟩ :=
      Disk.hasDirectory_iff.1 (Disk.hasDirectory_of_ensureDirectories hd)
    exact Disk.hasDirectory_iff.2 ⟨above, Disk.locate_mono hleaves.here hleaves.directory habove,
      hleaves.directory _ hthere⟩
  obtain ⟨rfl, hsame⟩ := run_error_of_hasDirectory (output?_of_linkCommand hplain hcommand) hdir hrun
  rw [hsame] at hdisk
  obtain ⟨d₂, command, b₂, d₃, hd₂, hcommand₂, hwrite₂, hend⟩ := link_eq_ok hrecord hr
  rw [hdisk, Disk.ensureDirectories_of_hasDirectory hdir] at hd₂
  cases hd₂
  cases hcommand.symm.trans hcommand₂
  rcases hend with ⟨hfresh, -⟩ | ⟨hcommands, -⟩
  · -- a record that is written once more is still there, and newer at most
    obtain ⟨place, hplace, rfl | ⟨hfile, hnew⟩⟩ := Disk.writeIfChanged_eq_ok hwrite₂
    · exact absurd hfresh hoverdue.not_fresh
    · obtain ⟨time, old, hold, -⟩ := Disk.fileAt?_of_writeIfChanged hwrite
      have hrecorded : d'.files.find? place ≠ none := by
        intro hnone
        rw [Disk.fileAt?, FileTree.file?, ← Disk.eq_place_of_locate hplace, hnone] at hold
        cases hold
      rw [← hleaves.here] at hne
      refine absurd hfresh (hoverdue.lags.of_renewed ?_ hnew ?_ (.inr hrecorded) ?_).not_fresh
      · obtain ⟨place', hplace', rfl | ⟨-, hnew'⟩⟩ := Disk.writeIfChanged_eq_ok hwrite
        · exact hpast
        · exact (hnew'.advances hdirs.grounded hplace').punctual hpast
      · exact Disk.eq_place_of_locate hplace ▸ hne
      · intro p _
        by_cases hp : p.place d'.here = place
        · exact .inl ⟨hp, hfile⟩
        · exact .inr ⟨hp, .inr hrecorded⟩
  · exact .of_commands hcommands

/-- The directory for objects is there, and the files are in order. -/
structure Site (objectDir : Path) (sources : List Path) (here : Place) (w : World) : Prop where
  grounded : w.disk.Grounded
  punctual : w.disk.Punctual
  honest : w.tools.Honest
  current : w.disk.here = here
  directory : w.disk.hasDirectory objectDir = true
  files : ∀ s ∈ sources, ¬ w.disk.files.IsDirectory (s.place here)

/-- Either the object was up to date, or the command for it was started and has made it new. -/
def Turned (c : Compiler) (package : Package) (defines : List Document) (source object : Path)
    (w w' : World) : Prop :=
  w.disk.Fresh object [source] ∧ w'.disk = w.disk ∧ w'.commands = w.commands ∨
    ∃ command place, c.compileCommand package defines source object = .ok command ∧
      w.disk.Overdue object [source] ∧ w.disk.locate object = .ok place ∧
      Disk.Renewed place w.disk w'.disk ∧ w'.commands = w.commands ++ [command]

/-- Of two sources with one object the earlier one lies at no object's place. -/
def Untangled (here : Place) (sources objects : List Path) : Prop :=
  (sources.zip objects).Pairwise fun p q => p.2.place here = q.2.place here →
    p.1 = q.1 ∨ ∀ object ∈ objects, object.place here ≠ p.1.place here

/-- On the way to the source whose command failed: its object still lags behind, or the command has been
started again. -/
def Resumes (source object : Path) (command : Command) (since w : World) : Prop :=
  ∃ more, w.commands = since.commands ++ more ∧ (command ∈ more ∨ w.disk.Lags object [source])

section
variable {package : Package} {defines : List Document} {objectDir : Path} {objects : List Path}
  {here : Place} {source object : Path}

private theorem turned_of_compileSource (hs : Site objectDir package.sources here w)
    (hparent : object.parent = objectDir)
    (hout : ∀ command, c.compileCommand package defines source object = .ok command →
      command.output? = some object)
    (hr : c.compileSource package defines source object w = .ok () w') :
    Turned c package defines source object w w' := by
  obtain ⟨stale, w₁, hstale, hrest⟩ := compileSource_steps hr
  cases stale with
  | false =>
    obtain ⟨rfl, hfresh⟩ := isStale_eq_false_iff.1 hstale
    cases hrest
    exact .inl ⟨hfresh, rfl, rfl⟩
  | true =>
    obtain ⟨⟨console, rfl⟩, hoverdue⟩ := isStale_eq_true hstale
    obtain ⟨command, w₂, shown, hcommand, ⟨console', rfl⟩, hrun⟩ := hrest
    have hcommands := commands_of_run hrun
    rcases run_eq_ok (by exact hs.honest) hrun with ⟨hnone, -⟩ | ⟨q, d, d', place, hq, hd, hplace, hnew, rfl⟩
    · rw [hout command hcommand] at hnone
      cases hnone
    · cases (hout command hcommand).symm.trans hq
      rw [hparent, Disk.ensureDirectories_of_hasDirectory hs.directory] at hd
      cases hd
      exact .inr ⟨command, place, hcommand, hoverdue, hplace, hnew, hcommands⟩

private theorem Site.turn (hs : Site objectDir package.sources here w)
    (hturned : Turned c package defines source object w w')
    (hr : c.compileSource package defines source object w = .ok () w') :
    Site objectDir package.sources here w' := by
  have hprogressed := (course_progress fun _ => True).compileSource (fun _ _ => trivial) hr
    hs.grounded hs.honest
  have hdisk := hprogressed.disk
  refine ⟨hdisk.grounded, hdisk.punctual hs.punctual, hprogressed.tools ▸ hs.honest,
    hdisk.here.trans hs.current, hdisk.hasDirectory hs.directory, fun s hsource => ?_⟩
  rcases hturned with ⟨-, hsame, -⟩ | ⟨_, _, -, -, -, hnew, -⟩
  · exact hsame ▸ hs.files s hsource
  · exact fun hdir => hs.files s hsource ((hnew.directory _).1 hdir)

/-- After its turn, an object is abreast of its source. -/
private theorem abreast_of_turn (hs : Site objectDir package.sources here w)
    (hs' : Site objectDir package.sources here w') (hsource : source ∈ package.sources)
    (hturned : Turned c package defines source object w w') : w'.disk.Abreast source object := by
  rcases hturned with ⟨hfresh, hsame, -⟩ | ⟨_, place, -, -, hplace, hnew, -⟩
  · rw [hsame]
    exact hfresh.abreast
  · refine hnew.abreast hs'.punctual ?_ hplace
    rw [hs.current]
    exact hs'.files source hsource

private theorem Turned.started (h : Turned c package defines source object w w') :
    ∃ more, w'.commands = w.commands ++ more := by
  rcases h with ⟨-, -, hcommands⟩ | ⟨command, _, -, -, -, -, hcommands⟩
  · exact ⟨[], hcommands.trans (List.append_nil _).symm⟩
  · exact ⟨[command], hcommands⟩

/-- The turn of the source itself starts the command, if that has not been done before. -/
private theorem Resumes.ran {command : Command} (h : Resumes source object command v w)
    (hcommand : c.compileCommand package defines source object = .ok command)
    (hturned : Turned c package defines source object w w') : Ran (· = command) v w' := by
  obtain ⟨more, hmore, hcase⟩ := h
  rcases hturned with ⟨hfresh, -, hcommands⟩ | ⟨command', _, hcommand', -, -, -, hcommands⟩
  · have hmem := hcase.resolve_right fun hlags => hlags.not_fresh hfresh
    exact ⟨more, hcommands.trans hmore, command, hmem, rfl⟩
  · cases hcommand.symm.trans hcommand'
    refine ⟨more ++ [command], ?_, command, List.mem_append_right _ (List.mem_singleton_self _), rfl⟩
    rw [hcommands, hmore, List.append_assoc]

variable (hsources : ∀ s ∈ package.sources, s.Plain)
  (hobjects : objectPaths? package.sources objectDir = some objects)
  (hwrites : c.WritesObjects package defines objects)
include hsources hobjects

private theorem place_ne_dropLast {object' : Path} (ho : object ∈ objects) (ho' : object' ∈ objects) :
    object.place here ≠ (object'.place here).dropLast := by
  obtain ⟨name, hname⟩ := exists_place_of_objectPaths hsources hobjects ho here
  obtain ⟨name', hname'⟩ := exists_place_of_objectPaths hsources hobjects ho' here
  rw [hname, hname', List.dropLast_concat]
  intro heq
  exact absurd (List.append_right_eq_self.1 heq) (List.cons_ne_nil _ _)

/-- A source is no directory, so it is not the one that the objects come into. -/
private theorem source_ne_dropLast (hs : Site objectDir package.sources here w)
    (hsource : source ∈ package.sources) (ho : object ∈ objects) :
    source.place here ≠ (object.place here).dropLast := by
  obtain ⟨name, hname⟩ := exists_place_of_objectPaths hsources hobjects ho here
  rw [hname, List.dropLast_concat]
  intro heq
  obtain ⟨place, hplace, hdir⟩ := Disk.hasDirectory_iff.1 hs.directory
  refine hs.files source hsource ?_
  rw [heq, ← hs.current, ← Disk.eq_place_of_locate hplace]
  exact hdir

/-- An object stays abreast of a source that no object takes the place of. -/
private theorem abreast_of_turned {source' object' : Path} (hs : Site objectDir package.sources here w)
    (hs' : Site objectDir package.sources here w') (ho : object ∈ objects) (ho' : object' ∈ objects)
    (hsource' : source' ∈ package.sources)
    (hclear : ∀ o ∈ objects, o.place here ≠ source'.place here)
    (hturned : Turned c package defines source object w w')
    (h : w.disk.Abreast source' object') : w'.disk.Abreast source' object' := by
  rcases hturned with ⟨-, hsame, -⟩ | ⟨_, place, -, -, hplace, hnew, -⟩
  · rw [hsame]
    exact h
  · obtain rfl := Disk.eq_place_of_locate hplace
    refine h.of_renewed hnew hs'.punctual ?_ ⟨?_, ?_⟩ ?_ <;> rw [hs.current]
    · exact hs'.files source' hsource'
    · exact (hclear object ho).symm
    · exact source_ne_dropLast hsources hobjects hs hsource' ho
    · exact place_ne_dropLast hsources hobjects ho' ho

private theorem Resumes.turn {source' object' : Path} {command : Command}
    (h : Resumes source object command v w) (hs : Site objectDir package.sources here w)
    (hsource : source ∈ package.sources) (ho : object ∈ objects) (ho' : object' ∈ objects)
    (hcommand : c.compileCommand package defines source object = .ok command)
    (hshared : object'.place here = object.place here →
      source' = source ∧ object' = object ∨ w.disk.Abreast source' object')
    (hturned : Turned c package defines source' object' w w') : Resumes source object command v w' := by
  obtain ⟨more, hmore, hcase⟩ := h
  rcases hturned with ⟨-, hsame, hcommands⟩ | ⟨command', place, hcommand', hoverdue, hplace, hnew, hcommands⟩
  · exact ⟨more, hcommands.trans hmore, hsame ▸ hcase⟩
  · refine ⟨more ++ [command'], by rw [hcommands, hmore, List.append_assoc], ?_⟩
    rcases hcase with hmem | hlags
    · exact .inl (List.mem_append_left _ hmem)
    · obtain rfl := Disk.eq_place_of_locate hplace
      by_cases hplaces : object'.place here = object.place here
      · rcases hshared hplaces with ⟨rfl, rfl⟩ | habreast
        · cases hcommand.symm.trans hcommand'
          exact .inl (List.mem_append_right _ (List.mem_singleton_self command))
        · exact absurd hoverdue habreast.not_overdue
      · refine .inr (hlags.of_renewed hs.punctual hnew ?_ (.inl ?_) fun p hp => ?_)
        · rw [hs.current]
          exact Ne.symm hplaces
        · rw [hs.current]
          exact place_ne_dropLast hsources hobjects ho ho'
        · rw [List.mem_singleton.1 hp, hs.current]
          by_cases hplace' : source.place here = object'.place here
          · exact .inl ⟨hplace', hplace' ▸ hs.files source hsource⟩
          · exact .inr ⟨hplace', .inl (source_ne_dropLast hsources hobjects hs hsource ho')⟩

include hwrites

private theorem turn_of_compileSource (hs : Site objectDir package.sources here w)
    (ho : object ∈ objects) (hr : c.compileSource package defines source object w = .ok () w') :
    Turned c package defines source object w w' ∧ Site objectDir package.sources here w' := by
  have hturned := turned_of_compileSource hs (parent_of_objectPaths hsources hobjects ho)
    (hwrites object ho source) hr
  exact ⟨hturned, hs.turn hturned hr⟩

private theorem site_of_turns {pairs : List (Path × Path)} (hsub : pairs ⊆ package.sources.zip objects)
    (hs : Site objectDir package.sources here w)
    (hr : (pairs.forM fun pair => c.compileSource package defines pair.1 pair.2) w = .ok ⟨⟩ w') :
    Site objectDir package.sources here w' :=
  Action.forM_preserves (fun _ hpair _ _ hs hr =>
    (turn_of_compileSource hsources hobjects hwrites hs (List.of_mem_zip (hsub hpair)).2 hr).2) hs hr

/-- What has been compiled is abreast of its source, unless objects take the place of the source. -/
private theorem abreast_of_turns {front : List (Path × Path)} (hsub : front ⊆ package.sources.zip objects)
    (hs : Site objectDir package.sources here w)
    (hr : (front.forM fun pair => c.compileSource package defines pair.1 pair.2) w = .ok ⟨⟩ w')
    {pair : Path × Path} (hpair : pair ∈ front)
    (hclear : ∀ o ∈ objects, o.place here ≠ pair.1.place here) : w'.disk.Abreast pair.1 pair.2 := by
  obtain ⟨before, back, t, t', hbefore, hback, hfirst, hturn, hlater⟩ :=
    Action.forM_eq_ok_of_mem hpair hr
  obtain ⟨hsource, ho⟩ := List.of_mem_zip (hsub hpair)
  have hst := site_of_turns hsources hobjects hwrites (List.Subset.trans hbefore hsub) hs hfirst
  obtain ⟨hturned, hst'⟩ := turn_of_compileSource hsources hobjects hwrites hst ho hturn
  refine (Action.forM_preserves (I := fun x => Site objectDir package.sources here x ∧
    x.disk.Abreast pair.1 pair.2) ?_ ⟨hst', abreast_of_turn hst hst' hsource hturned⟩ hlater).2
  intro p hp x y ⟨hsx, habreast⟩ hturn
  have ho' := (List.of_mem_zip (hsub (hback hp))).2
  obtain ⟨hturned, hsy⟩ := turn_of_compileSource hsources hobjects hwrites hsx ho' hturn
  exact ⟨hsy, abreast_of_turned hsources hobjects hsx hsy ho' ho hsource hclear hturned habreast⟩

/-- Up to the turn of the source whose command failed, its object lags behind, as long as those that
might renew it are abreast of their sources. -/
private theorem resumes_of_turns {front : List (Path × Path)} {command : Command}
    (hsub : front ⊆ package.sources.zip objects)
    (hpair : (source, object) ∈ package.sources.zip objects)
    (hshared : ∀ pair ∈ front, pair.2.place here = object.place here →
      pair.1 = source ∨ ∀ o ∈ objects, o.place here ≠ pair.1.place here)
    (hcommand : c.compileCommand package defines source object = .ok command)
    (hs : Site objectDir package.sources here v) (hlags : v.disk.Lags object [source])
    (habreast : ∀ pair ∈ front, (∀ o ∈ objects, o.place here ≠ pair.1.place here) →
      v.disk.Abreast pair.1 pair.2)
    (hr : (front.forM fun pair => c.compileSource package defines pair.1 pair.2) v = .ok ⟨⟩ w) :
    Resumes source object command v w := by
  obtain ⟨hsource, ho⟩ := List.of_mem_zip hpair
  refine (Action.forM_preserves (I := fun x => Site objectDir package.sources here x ∧
    (∀ pair ∈ front, (∀ o ∈ objects, o.place here ≠ pair.1.place here) →
      x.disk.Abreast pair.1 pair.2) ∧
    Resumes source object command v x) ?_ ⟨hs, habreast, [], (List.append_nil _).symm, .inr hlags⟩ hr).2.2
  intro pair hmem x y ⟨hsx, habreast, hresumes⟩ hturn
  obtain ⟨-, ho'⟩ := List.of_mem_zip (hsub hmem)
  obtain ⟨hturned, hsy⟩ := turn_of_compileSource hsources hobjects hwrites hsx ho' hturn
  refine ⟨hsy, fun p hp hclear => ?_, ?_⟩
  · obtain ⟨hsource'', ho''⟩ := List.of_mem_zip (hsub hp)
    exact abreast_of_turned hsources hobjects hsx hsy ho' ho'' hsource'' hclear hturned
      (habreast p hp hclear)
  · refine hresumes.turn hsources hobjects hsx hsource ho ho' hcommand (fun hplaces => ?_) hturned
    refine (hshared pair hmem hplaces).imp ?_ (habreast pair hmem)
    rintro rfl
    exact ⟨rfl, object_unique hobjects (hsub hmem) hpair⟩

/-- Where the object of a source lags behind, and others with the same object are abreast, the source is
compiled. -/
private theorem ran_of_turns {front back : List (Path × Path)} {command : Command}
    (hzip : package.sources.zip objects = front ++ (source, object) :: back)
    (huntangled : Untangled here package.sources objects)
    (hcommand : c.compileCommand package defines source object = .ok command)
    (hs : Site objectDir package.sources here v) (hlags : v.disk.Lags object [source])
    (habreast : ∀ pair ∈ front, (∀ o ∈ objects, o.place here ≠ pair.1.place here) →
      v.disk.Abreast pair.1 pair.2)
    (hr : ((package.sources.zip objects).forM fun pair =>
      c.compileSource package defines pair.1 pair.2) v = .ok ⟨⟩ v') : Ran (· = command) v v' := by
  have hfront : front ⊆ package.sources.zip objects := hzip ▸ List.subset_append_left _ _
  have hpair : (source, object) ∈ package.sources.zip objects :=
    hzip ▸ List.mem_append_right _ List.mem_cons_self
  have hback {pair : Path × Path} (h : pair ∈ back) : pair.2 ∈ objects :=
    (List.of_mem_zip (hzip ▸ List.mem_append_right _ (List.mem_cons_of_mem _ h))).2
  rw [hzip] at hr
  obtain ⟨u, hr₁, hr₂⟩ := Action.forM_append_eq_ok_iff.1 hr
  obtain ⟨u', hturn, hr₃⟩ := Action.forM_cons_eq_ok_iff.1 hr₂
  have hsu := site_of_turns hsources hobjects hwrites hfront hs hr₁
  obtain ⟨hturned, hsu'⟩ :=
    turn_of_compileSource hsources hobjects hwrites hsu (List.of_mem_zip hpair).2 hturn
  have hran : Ran (· = command) v u' := by
    refine (resumes_of_turns hsources hobjects hwrites hfront hpair (fun p hp hplaces => ?_) hcommand hs
      hlags habreast hr₁).ran hcommand hturned
    rw [Untangled, hzip] at huntangled
    exact (List.pairwise_append.1 huntangled).2.2 p hp _ List.mem_cons_self hplaces
  refine (Action.forM_preserves (I := fun x => Site objectDir package.sources here x ∧
    Ran (· = command) v x) ?_ ⟨hsu', hran⟩ hr₃).2
  intro pair h x y ⟨hsx, hran⟩ hturn
  obtain ⟨hturned, hsy⟩ := turn_of_compileSource hsources hobjects hwrites hsx (hback h) hturn
  obtain ⟨more, hmore⟩ := hturned.started
  exact ⟨hsy, hran.later hmore⟩

end

/-- A package that a command has kept from being compiled has been compiled up to one of its sources. -/
private theorem compile_failed {package : Package} {defines : List Document} {objectDir : Path}
    {objects : List Path} {command : Command} (hw : w.disk.Grounded) (htools : w.tools.Honest)
    (hsources : ∀ s ∈ package.sources, s.Plain)
    (hobjects : objectPaths? package.sources objectDir = some objects)
    (hwrites : c.WritesObjects package defines objects)
    (hfailed : failed? (c.compile package objectDir defines w) = some command) :
    ∃ d t front source object back, w.disk.ensureDirectories objectDir = (.ok (), d) ∧
      package.sources.zip objects = front ++ (source, object) :: back ∧
      (front.forM fun pair => c.compileSource package defines pair.1 pair.2) { w with disk := d } =
        .ok ⟨⟩ t ∧
      Disk.Advances (fun _ => True) d t.disk ∧ t.disk.Overdue object [source] ∧
      c.compileCommand package defines source object = .ok command ∧
      (leaves (c.compile package objectDir defines w)).disk = t.disk := by
  obtain ⟨status, output, hfail⟩ := exists_error_of_failed? hfailed
  rcases compile_eq_error hfail with
    hlocal | ⟨objects', w₁, hobjects', hdirs, front, ⟨source, object⟩, back, t, hzip, hfront, hpair⟩
  · exact hlocal.elim
  cases hobjects.symm.trans hobjects'
  rcases compileSource_eq_error hpair with
    hlocal | ⟨command', w₂, hoverdue, hcommand, hspoken, hrun⟩
  · exact hlocal.elim
  obtain ⟨-, ho⟩ := List.of_mem_zip (hzip ▸ List.mem_append_right _ List.mem_cons_self :
    (source, object) ∈ package.sources.zip objects)
  obtain ⟨d, hd, rfl⟩ := attempt_eq_ok hdirs
  have hadvances := Disk.advances_ensureDirectories (fun _ => False) hw objectDir
  rw [hd] at hadvances
  have hprogressed := (course_progress fun _ => True).compileSources (fun _ _ _ _ => trivial) hfront
    hadvances.grounded htools
  have hdir := hprogressed.disk.hasDirectory (Disk.hasDirectory_of_ensureDirectories hd)
  rw [← parent_of_objectPaths hsources hobjects ho, ← hspoken.unmoved.disk] at hdir
  obtain ⟨rfl, hsame⟩ := run_error_of_hasDirectory (hwrites object ho source command' hcommand) hdir hrun
  exact ⟨d, t, front, source, object, back, hd, hzip, hfront, hprogressed.disk, hoverdue, hcommand,
    hsame.trans hspoken.unmoved.disk⟩

theorem retries_compile {package : Package} {defines : List Document} {objectDir : Path}
    (hw : w.disk.Grounded) (hpunctual : w.disk.Punctual) (htools : w.tools.Honest)
    (hagain : v.tools.Honest) (hflags : Undirected c.compileFlags) (hpackage : Undirected package.flags)
    (hdir : objectDir.Plain) (hsources : ∀ s ∈ package.sources, s.Plain)
    (hfiles : ∀ s ∈ package.sources, ¬ v.disk.files.IsDirectory (s.place v.disk.here))
    (huntangled : ∀ objects, objectPaths? package.sources objectDir = some objects →
      Untangled v.disk.here package.sources objects) :
    Retries (c.compile package objectDir defines) w v := by
  intro command hfailed hdisk objects v' hr
  obtain ⟨hobjects, v₁, hdirs, hcompile⟩ := compile_steps hr
  have hwrites : c.WritesObjects package defines objects :=
    writesObjects_of_undirected hflags hpackage hdir hsources hobjects
  obtain ⟨d, t, front, source, object, back, hd, hzip, hfront, hlater, hoverdue, hcommand, hsame⟩ :=
    compile_failed hw htools hsources hobjects hwrites hfailed
  have hsame : v.disk = t.disk := hdisk.trans hsame
  have hsub : front ⊆ package.sources.zip objects := hzip ▸ List.subset_append_left _ _
  have hadvances := Disk.advances_ensureDirectories (fun _ => False) hw objectDir
  rw [hd] at hadvances
  -- the files were in order before the first source, and are so when the package is compiled again
  have hsite : Site objectDir package.sources v.disk.here { w with disk := d } :=
    ⟨hadvances.grounded, hadvances.punctual hpunctual, htools,
      by rw [hsame]; exact hlater.here.symm, Disk.hasDirectory_of_ensureDirectories hd,
      fun s hs hdir => hfiles s hs (hsame ▸ hlater.isDirectory (hsame ▸ hdir))⟩
  have hst := site_of_turns hsources hobjects hwrites hsub hsite hfront
  have hsv : Site objectDir package.sources v.disk.here v :=
    ⟨hsame ▸ hst.grounded, hsame ▸ hst.punctual, hagain, rfl, hsame ▸ hst.directory, hfiles⟩
  obtain ⟨d', hd', rfl⟩ := attempt_eq_ok hdirs
  cases (Disk.ensureDirectories_of_hasDirectory hsv.directory).symm.trans hd'
  refine ran_of_turns hsources hobjects hwrites hzip (huntangled _ hobjects) hcommand hsv
    (hsame ▸ hoverdue.lags) (fun pair hpair hclear => ?_) hcompile
  rw [hsame]
  exact abreast_of_turns hsources hobjects hwrites hsub hsite hfront hpair hclear

/-- A step that fails by a command starts the command again when it is repeated and succeeds. For the
compilation of a package it has to be clear which source an object was made of: where two sources have
one object, the earlier one is not made by the compilation itself. -/
theorem failed_step_retried (hw : w.disk.Grounded) (hpunctual : w.disk.Punctual) :
    (∀ (package : Package) (defines : List Document) (objectDir : Path), w.tools.Honest →
      v.tools.Honest → Undirected c.compileFlags → Undirected package.flags → objectDir.Plain →
      (∀ s ∈ package.sources, s.Plain ∧ ¬ v.disk.files.IsDirectory (s.place v.disk.here)) →
      (∀ objects, objectPaths? package.sources objectDir = some objects →
        Untangled v.disk.here package.sources objects) →
      Retries (c.compile package objectDir defines) w v) ∧
    (∀ objects path, path.Plain → Retries (c.archive objects path) w v) ∧
    ∀ archives script output symbolFiles, output.Plain →
      Retries (c.link archives script output symbolFiles) w v := by
  refine ⟨?_, fun _ _ => retries_archive hw, fun _ _ _ _ => retries_link hw hpunctual⟩
  intro package defines objectDir htools hagain hflags hpackage hdir hsources huntangled
  exact retries_compile hw hpunctual htools hagain hflags hpackage hdir (fun s hs => (hsources s hs).1)
    (fun s hs => (hsources s hs).2) huntangled

/-- A workspace with directories and files, in which every command fails whose text holds the piece. -/
def rejecting (piece : String) (entries : List (Place × Entry)) : World where
  disk := ⟨⟨entries⟩, 20, 100, []⟩
  tools := ⟨[⟨piece, false, 1, none, none⟩], []⟩
  buildDirVariable := none
  console := .ofVerbosity 0
  commands := []

/-- The compilation of a package into a directory. -/
def compiling (sources : List Path) (objectDir : Path) : Action (List Path) :=
  compile ⟨.text "", [], []⟩ ⟨.text "p", sources, [], []⟩ objectDir []

/-- The same workspace once more, with tools that do their work. -/
def mended {α : Type} (r : EStateM.Result Failure World α) : World :=
  { leaves r with tools := ⟨[], []⟩, commands := [] }

def sourceA : Path := ⟨.relative, ["a.c"]⟩

def compiledA : Command := ["gcc", "-c", "-o", "o/a.o", "a.c"]

def unfinished : World := rejecting "a.c" [([], .directory 1), (["a.c"], .file 1 "")]

/-- The workspace after the compilation of its source has failed. -/
def unfinishedAgain : World := mended (compiling [sourceA] ⟨.relative, ["o"]⟩ unfinished)

def archivingA : Action Path := archive ⟨.text "", [], []⟩ [objectA] archiveX

def archivedA : Command := ["ar", "rcs", "x.a", "a.o"]

def unarchived : World := rejecting "rcs" [([], .directory 1), (["a.o"], .file 1 "")]

def linkingA : Action Path := link ⟨.text "", [], []⟩ (archivesOf ["a"]) ⟨.relative, ["l"]⟩ binaryX []

/-- The command for the binary is rejected after it has been recorded. -/
def unbound : World :=
  rejecting "x.elf" [([], .directory 1), (["l"], .file 1 ""), (["a"], .file 1 "")]

private theorem rejected_facts :
    failed? (compiling [sourceA] ⟨.relative, ["o"]⟩ unfinished) = some compiledA ∧
      answer? (compiling [sourceA] ⟨.relative, ["o"]⟩ unfinishedAgain) =
        some [⟨.relative, ["o", "a.o"]⟩] ∧
      failed? (archivingA unarchived) = some archivedA ∧
      answer? (archivingA (mended (archivingA unarchived))) = some archiveX ∧
      failed? (linkingA unbound) = some linkedA ∧
      answer? (linkingA (mended (linkingA unbound))) = some binaryX := by
  decide +kernel

theorem failed_steps_retried :
    (failed? (compiling [sourceA] ⟨.relative, ["o"]⟩ unfinished) = some compiledA ∧
      Ran (· = compiledA) unfinishedAgain
        (leaves (compiling [sourceA] ⟨.relative, ["o"]⟩ unfinishedAgain))) ∧
    (failed? (archivingA unarchived) = some archivedA ∧
      Ran (· = archivedA) (mended (archivingA unarchived))
        (leaves (archivingA (mended (archivingA unarchived))))) ∧
    failed? (linkingA unbound) = some linkedA ∧
      Ran (· = linkedA) (mended (linkingA unbound))
        (leaves (linkingA (mended (linkingA unbound)))) := by
  obtain ⟨hcompile, hcompiled, harchive, harchived, hlink, hlinked⟩ := rejected_facts
  have hgrounded : unfinished.disk.Grounded := by decide +kernel
  have hpunctual : unfinished.disk.Punctual := by decide +kernel
  have hsource : sourceA.Plain ∧
      ¬ unfinishedAgain.disk.files.IsDirectory (sourceA.place unfinishedAgain.disk.here) := by
    decide +kernel
  have huntangled (objects : List Path)
      (hobjects : objectPaths? [sourceA] ⟨.relative, ["o"]⟩ = some objects) :
      Untangled unfinishedAgain.disk.here [sourceA] objects := by
    have hone : objectPaths? [sourceA] ⟨.relative, ["o"]⟩ = some [⟨.relative, ["o", "a.o"]⟩] := by
      decide +kernel
    cases hone.symm.trans hobjects
    exact List.pairwise_singleton ..
  have hcompiling : Retries (compiling [sourceA] ⟨.relative, ["o"]⟩) unfinished unfinishedAgain :=
    (failed_step_retried hgrounded hpunctual).1 ⟨.text "p", [sourceA], [], []⟩ [] ⟨.relative, ["o"]⟩
      (by decide +kernel) (by decide +kernel) (by simp [Undirected]) (by simp [Undirected])
      (by decide) (List.forall_mem_singleton.2 hsource) huntangled
  have harchiving : Retries archivingA unarchived (mended (archivingA unarchived)) :=
    (failed_step_retried (by decide +kernel) (by decide +kernel)).2.1 [objectA] archiveX (by decide)
  have hlinking : Retries linkingA unbound (mended (linkingA unbound)) :=
    (failed_step_retried (by decide +kernel) (by decide +kernel)).2.2 _ _ binaryX [] (by decide)
  exact ⟨⟨hcompile, hcompiling _ hcompile rfl _ _ (eq_ok_of_answer? hcompiled)⟩,
    ⟨harchive, harchiving _ harchive rfl _ _ (eq_ok_of_answer? harchived)⟩,
    hlink, hlinking _ hlink rfl _ _ (eq_ok_of_answer? hlinked)⟩

/-- The outer two sources have one object, and the first of them is itself the object of the one
between. -/
def tangled : List Path :=
  [⟨.relative, ["d", "x.o"]⟩, ⟨.relative, ["x.c"]⟩, ⟨.relative, ["d", "x.c"]⟩]

def tangledObject : Path := ⟨.relative, ["d", "d_x.o"]⟩

def compiledFrom (source : String) : Command := ["gcc", "-c", "-o", "d/d_x.o", source]

def halfCompiled : World :=
  rejecting "d/x.c" [([], .directory 1), (["d"], .directory 1), (["d", "x.o"], .file 5 ""),
    (["x.c"], .file 7 ""), (["d", "x.c"], .file 20 ""), (["d", "d_x.o"], .file 10 "")]

def halfCompiledAgain : World := mended (compiling tangled ⟨.relative, ["d"]⟩ halfCompiled)

/-- A source whose command failed is passed over when its object is made of another one: that source has
become newer, as an object, in the compilation that failed. -/
theorem failed_source_passed_over :
    halfCompiled.disk.Grounded ∧ halfCompiled.disk.Punctual ∧ halfCompiled.tools.Honest ∧
      failed? (compiling tangled ⟨.relative, ["d"]⟩ halfCompiled) = some (compiledFrom "d/x.c") ∧
      ¬ Retries (compiling tangled ⟨.relative, ["d"]⟩) halfCompiled halfCompiledAgain := by
  have hfailed : failed? (compiling tangled ⟨.relative, ["d"]⟩ halfCompiled) =
      some (compiledFrom "d/x.c") := by
    decide +kernel
  have hanswer : answer? (compiling tangled ⟨.relative, ["d"]⟩ halfCompiledAgain) =
      some [tangledObject, ⟨.relative, ["d", "x.o"]⟩, tangledObject] := by
    decide +kernel
  have hcommands : (leaves (compiling tangled ⟨.relative, ["d"]⟩ halfCompiledAgain)).commands =
      [compiledFrom "d/x.o"] := by
    decide +kernel
  refine ⟨by decide +kernel, by decide +kernel, by decide +kernel, hfailed, fun hretries => ?_⟩
  obtain ⟨new, hnew, c, hc, rfl⟩ := hretries _ hfailed rfl _ _ (eq_ok_of_answer? hanswer)
  rw [hcommands] at hnew
  cases hnew
  exact absurd hc (by decide +kernel)

end Compiler
end DualImage
