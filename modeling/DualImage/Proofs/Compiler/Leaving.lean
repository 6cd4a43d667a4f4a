import DualImage.Proofs.Compiler.Conduct
import DualImage.Proofs.Workspace.Standing

/-! Steps that write away from certain places, whether they succeed or not: the files there stay, with
their times and texts. -/
namespace DualImage

/-- The command writes at none of these places. -/
def Command.Avoids (here : Place) (S : Place → Prop) (c : Command) : Prop :=
  ∀ p, c.output? = some p → ¬ S (p.place here)

/-- The path leads to none of these places. -/
def Path.Avoids (here : Place) (S : Place → Prop) (p : Path) : Prop := ¬ S (p.place here)

namespace World
variable {here : Place} {S : Place → Prop} {w w' : World} {q : Path}

/-- On a disk where all stands in directories, the files at these places stay. -/
def Leaving (here : Place) (S : Place → Prop) (w w' : World) : Prop :=
  w.disk.Grounded → w.disk.here = here → Disk.Leaving S w.disk w'.disk

theorem Leaving.mono {S' : Place → Prop} (h : Leaving here S w w') (hS : ∀ place, S' place → S place) :
    Leaving here S' w w' :=
  fun hw hhere => (h hw hhere).mono hS

theorem Spoken.leaving (h : Spoken w w') : Leaving here S w w' := by
  obtain ⟨console, rfl⟩ := h
  exact fun hw _ => .refl hw

theorem Unmoved.leaving (h : Unmoved w w') : Leaving here S w w' := by
  obtain ⟨console, commands, rfl⟩ := h
  exact fun hw _ => .refl hw

instance : IsPreorder World (Leaving here S) where
  refl w := Spoken.leaving (refl_of Spoken w)
  trans _ _ _ h h' hw hhere := by
    have hfirst := h hw hhere
    exact hfirst.trans (h' hfirst.grounded (hfirst.here.trans hhere))

private theorem keeps_directories (p : Path) : Keeps (Leaving here S) (ensureDirectories p) :=
  Keeps.attempt fun _ hw _ => by
    have h := fun q => Disk.leaves_ensureDirectories hw p q
    exact ⟨(h []).here, (h []).grounded, (h []).directory, fun q _ => (h q).file⟩

private theorem keeps_renewal (c : Command) (hq : q.Avoids here S) :
    Keeps (Leaving here S) (renew c q) := by
  refine (Keeps.failingAs (keeps_directories q.parent)).bind fun _ => Keeps.failingAs ?_
  refine Keeps.change fun w d hd hw hhere => ?_
  exact .of_leaves (fun _ => Disk.leaves_touch hw hd) (hhere ▸ hq)

private theorem keeps_command {c : Command} (hc : c.Avoids here S) :
    Keeps (Leaving here S) (World.run c) := by
  intro w
  have hstarted : Leaving here S w (w.started c) := Unmoved.leaving (w.unmoved_started c)
  by_cases hplain : c.output? = none ∨ w.tools.rule? c ≠ none
  · rw [run_eq_reply hplain]
    cases w.tools.reply c <;> exact hstarted
  · obtain ⟨hout, hrule⟩ := not_or.1 hplain
    obtain ⟨q, hq⟩ := Option.ne_none_iff_exists'.1 hout
    rw [run_eq_renew (not_not.1 hrule) hq]
    exact trans_of (Leaving here S) hstarted
      (((keeps_renewal c (hc q hq)).bind fun _ => .pure _) _)

/-- What a build writes has to avoid the places. -/
theorem conduct_leaving (here : Place) (S : Place → Prop) :
    Conduct (Command.Avoids here S) (Path.Avoids here S) (Path.Avoids here S)
      (Leaving here S) where
  spoken _ _ := Spoken.leaving
  directories := keeps_directories
  record _ text hp := Keeps.attempt fun _ hw hhere =>
    .of_leaves (fun _ => Disk.leaves_writeIfChanged hw text) (hhere ▸ hp)
  delete _ hp := Keeps.change fun _ _ hd hw hhere =>
    .of_leaves (fun _ => Disk.leaves_delete hw hd) (hhere ▸ hp)
  run _ hc := keeps_command hc

end World
end DualImage
