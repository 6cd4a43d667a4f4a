import DualImage.Proofs.Compiler.Calls
import DualImage.Proofs.Workspace.Standing

/-! What an archive was last packed of. An archive that is as new as the objects of a call is left as it
is, also when it was packed of others. -/
namespace DualImage
open Call (last?)

/-- The command packs these objects into the archive, and no others. -/
def Command.PacksInto (path : Path) (objects : List Path) (c : Command) : Prop :=
  c.tail = ("rcs" : Text) :: path.toText :: objects.map Path.toText

instance (path : Path) (objects : List Path) (c : Command) : Decidable (c.PacksInto path objects) :=
  inferInstanceAs (Decidable (_ = _))

/-- The call packs objects into the archive. -/
structure Call.Packs (path : Path) (g : Call) : Prop where
  action : ∃ (c : Compiler) (objects : List Path), g.action = c.archive objects path
  grounded : g.before.disk.Grounded

namespace Compiler
open World
variable {c : Compiler} {objects : List Path} {path p : Path} {w w' : World} {rest : List Call}

/-- An archive that is up to date is left alone, and else the command for it goes through. -/
theorem archive_eq_ok (hr : c.archive objects path w = .ok p w') :
    ∃ d, w.disk.ensureDirectories path.parent = (.ok (), d) ∧
      (d.Fresh path objects ∧ w' = { w with disk := d } ∨ d.Overdue path objects ∧ ∃ tool,
        c.tool "ar" = .ok tool ∧
        w'.commands = w.commands ++ [tool :: "rcs" :: path.toText :: objects.map Path.toText]) := by
  obtain ⟨-, w₁, stale, w₂, hdirectories, hstale, hrest⟩ := archive_steps hr
  obtain ⟨d, hd, rfl⟩ := attempt_eq_ok hdirectories
  refine ⟨d, hd, ?_⟩
  cases stale with
  | false =>
    obtain ⟨rfl, hfresh⟩ := isStale_eq_false_iff.1 hstale
    exact .inl ⟨hfresh, hrest⟩
  | true =>
    obtain ⟨w₃, w₄, tool, shown, hdelete, ⟨console', rfl⟩, htool, hrun⟩ := hrest
    obtain ⟨⟨console, rfl⟩, hoverdue⟩ := isStale_eq_true hstale
    have hcommands : w₃.commands = w.commands := by
      split at hdelete
      · obtain ⟨d', -, rfl⟩ := attempt_eq_ok hdelete
        rfl
      · rw [hdelete]
    have hstarted := commands_of_run hrun
    rw [hcommands] at hstarted
    exact .inr ⟨hoverdue, tool, htool, hstarted⟩

/-- A call that fails leaves the archive as it is, or without one. -/
private theorem fileAt?_of_archive_error {f : Failure} (hw : w.disk.Grounded)
    (hr : c.archive objects path w = .error f w') :
    w'.disk.fileAt? path = w.disk.fileAt? path ∨ w'.disk.fileAt? path = none := by
  have hdirs := w.disk.leaves_ensureDirectories hw path.parent (path.place w.disk.here)
  rcases archive_eq_error hr with ⟨-, hdisk⟩ | ⟨d, d', hd, -, hdelete, hlast⟩
  · exact .inl (hdisk ▸ hdirs.fileAt?)
  · rw [hd] at hdirs
    have hgone : (d'.fileAt? path = d.fileAt? path ∨ d'.fileAt? path = none) ∧ d'.Grounded := by
      split at hdelete
      · exact ⟨.inr (Disk.fileAt?_delete hdelete), Disk.grounded_delete hdelete hdirs.grounded⟩
      · rw [hdelete]
        exact ⟨.inl rfl, hdirs.grounded⟩
    have hsame : w'.disk.fileAt? path = d'.fileAt? path := by
      rcases hlast with ⟨-, hdisk⟩ | ⟨tool, w₁, -, ⟨console, rfl⟩, hrun⟩
      · rw [hdisk]
      · exact (leaves_of_run_error hgone.2 hrun _).fileAt?
    rw [hsame, ← hdirs.fileAt?]
    exact hgone.1

/-- Without a command that went through, a call leaves the archive as it is, or without one. -/
private theorem fileAt?_of_not_packed {g : Call} (hg : g.Packs path) (hdone : g.done? = none) :
    g.after.disk.fileAt? path = g.before.disk.fileAt? path ∨ g.after.disk.fileAt? path = none := by
  obtain ⟨⟨c, objects, haction⟩, hgrounded⟩ := hg
  cases hr : g.action g.before with
  | error f w' =>
    rw [Call.after_of_error hr]
    rw [haction] at hr
    exact fileAt?_of_archive_error hgrounded hr
  | ok p w' =>
    rw [Call.after_of_ok hr]
    have hr' := hr
    rw [haction] at hr'
    obtain ⟨d, hd, ⟨-, rfl⟩ | ⟨-, tool, -, hcommands⟩⟩ := archive_eq_ok hr'
    · have hdirs := g.before.disk.leaves_ensureDirectories hgrounded path.parent
        (path.place g.before.disk.here)
      rw [hd] at hdirs
      exact .inl hdirs.fileAt?
    · rw [Call.done?_of_ok hr hcommands] at hdone
      cases hdone

/-- An archive that is there is the one that the last successful command has made. -/
theorem exists_packed (hcalls : Calls (Call.Packs path) path [path] (g :: rest))
    (hthere : g.before.disk.fileAt? path ≠ none) :
    ∃ g' command, last? rest = some (g', command) ∧
      g.before.disk.fileAt? path = g'.after.disk.fileAt? path := by
  refine Calls.holds (I := fun l d => d.fileAt? path ≠ none → ∃ g' command, l = some (g', command) ∧
    d.fileAt? path = g'.after.disk.fileAt? path) ?_ ?_ ?_ ?_ hcalls hthere
  · exact fun d hnone hthere => absurd hnone hthere
  · intro l d d' _ hsame hbefore hthere
    rw [hsame path (List.mem_singleton_self path)] at hthere ⊢
    exact hbefore hthere
  · exact fun g' command _ _ _ _ _ => ⟨g', command, rfl, rfl⟩
  · intro g' l hg hdone hbefore hthere
    rcases fileAt?_of_not_packed hg hdone with hsame | hnone
    · rw [hsame] at hthere ⊢
      exact hbefore hthere
    · exact absurd hnone hthere

/-- After a call the last successful command has packed the objects of this call exactly if the archive
was out of date for them, or if the command before had packed them already. -/
theorem last_packed (hcalls : Calls (Call.Packs path) path [path] (⟨c.archive objects path, w⟩ :: rest))
    (hr : c.archive objects path w = .ok p w')
    (hfile : ¬ w'.disk.files.IsDirectory (path.place w'.disk.here)) :
    ∃ g command, last? (⟨c.archive objects path, w⟩ :: rest) = some (g, command) ∧
      w'.disk.fileAt? path = g.after.disk.fileAt? path ∧
      (command.PacksInto path objects ↔
        (w.disk.ensureDirectories path.parent).2.Overdue path objects ∨
        ∃ g' command', last? rest = some (g', command') ∧ command'.PacksInto path objects) := by
  obtain ⟨d, hd, hrest⟩ := archive_eq_ok hr
  rw [hd]
  rcases hrest with ⟨hfresh, rfl⟩ | ⟨hoverdue, tool, -, hcommands⟩
  · have hdirs := w.disk.leaves_ensureDirectories hcalls.latest.grounded path.parent
      (path.place w.disk.here)
    rw [hd] at hdirs
    have hthere := hfresh.fileAt?_ne_none hfile
    rw [hdirs.fileAt?] at hthere ⊢
    obtain ⟨g, command, hlast, hsame⟩ := exists_packed hcalls hthere
    have hquiet : Call.done? ⟨c.archive objects path, w⟩ = none :=
      Call.done?_of_quiet (g := ⟨c.archive objects path, w⟩) hr rfl
    rw [Call.last?_of_not_done hquiet]
    refine ⟨g, command, hlast, hsame, fun hpacks => .inr ⟨g, command, hlast, hpacks⟩, ?_⟩
    rintro (hoverdue | ⟨g', command', hlast', hpacks⟩)
    · exact absurd hfresh hoverdue.not_fresh
    · cases hlast.symm.trans hlast'
      exact hpacks
  · have hdone := Call.done?_of_ok (g := ⟨c.archive objects path, w⟩) hr hcommands
    have hafter : Call.after ⟨c.archive objects path, w⟩ = w' :=
      Call.after_of_ok (g := ⟨c.archive objects path, w⟩) hr
    exact ⟨_, _, Call.last?_of_done hdone, by rw [hafter], iff_of_true rfl (.inl hoverdue)⟩

/-- Two objects that no archive holds. -/
def unpacked : World where
  disk := ⟨⟨[([], .directory 1), (["a.o"], .file 1 ""), (["b.o"], .file 1 "")]⟩, 1, 100, []⟩
  tools := ⟨[], []⟩
  buildDirVariable := none
  console := .ofVerbosity 0
  commands := []

def objectA : Path := ⟨.relative, ["a.o"]⟩

def objectB : Path := ⟨.relative, ["b.o"]⟩

def archiveX : Path := ⟨.relative, ["x.a"]⟩

def packing (objects : List Path) (before : World) : Call :=
  ⟨archive ⟨.text "", [], []⟩ objects archiveX, before⟩

/-- Both of them are packed first. -/
def firstPacking : Call := packing [objectA, objectB] unpacked

def firstPacked : Command := ["ar", "rcs", "x.a", "a.o", "b.o"]

private theorem done?_firstPacking : firstPacking.done? = some firstPacked := by
  decide +kernel

private theorem calls_packing (objects : List Path) :
    Calls (Call.Packs archiveX) archiveX [archiveX]
      [packing objects firstPacking.after, firstPacking] := by
  have hbefore : unpacked.disk.Grounded := by decide +kernel
  have hafter : firstPacking.after.disk.Grounded := by decide +kernel
  have hnone : unpacked.disk.fileAt? archiveX = none := by decide +kernel
  exact .next (.start ⟨⟨_, _, rfl⟩, hbefore⟩ hnone) ⟨⟨_, _, rfl⟩, hafter⟩ rfl fun _ _ => rfl

theorem last_packed_again : ∃ g command,
    last? [packing [objectA, objectB] firstPacking.after, firstPacking] = some (g, command) ∧
      command.PacksInto archiveX [objectA, objectB] := by
  have hanswer : answer? (archive ⟨.text "", [], []⟩ [objectA, objectB] archiveX
      firstPacking.after) = some archiveX := by
    decide +kernel
  have hpacks : firstPacked.PacksInto archiveX [objectA, objectB] := by decide +kernel
  obtain ⟨g, command, hlast, -, hiff⟩ := last_packed (calls_packing [objectA, objectB])
    (eq_ok_of_answer? hanswer) (by decide +kernel)
  exact ⟨g, command, hlast, hiff.2
    (.inr ⟨firstPacking, firstPacked, Call.last?_of_done done?_firstPacking, hpacks⟩)⟩

/-- An object that is no longer asked for stays in the archive: the archive is newer than the object that
is left, so it is not packed again. -/
theorem dropped_object_stays :
    Calls (Call.Packs archiveX) archiveX [archiveX]
        [packing [objectA] firstPacking.after, firstPacking] ∧
      answer? (archive ⟨.text "", [], []⟩ [objectA] archiveX firstPacking.after) = some archiveX ∧
      last? [packing [objectA] firstPacking.after, firstPacking] = some (firstPacking, firstPacked) ∧
      ¬ firstPacked.PacksInto archiveX [objectA] := by
  have hquiet : (packing [objectA] firstPacking.after).done? = none := by decide +kernel
  refine ⟨calls_packing _, by decide +kernel, ?_, by decide +kernel⟩
  rw [Call.last?_of_not_done hquiet]
  exact Call.last?_of_done done?_firstPacking

end Compiler
end DualImage
