import DualImage.Proofs.Compiler.Conduct
import DualImage.Proofs.Half.Commands
import DualImage.Proofs.Workspace.Files

/-! Steps that withhold something: commands that are not started, and files that are not written.
A compiler can be told by its flags to put an object anywhere, so a file is safe from all commands
but these, and its text is safe from them too. -/
namespace DualImage

/-- The path leads elsewhere than each of the others. -/
def Path.ClearOf (paths : List Path) (q : Path) : Prop :=
  ∀ here, ∀ p ∈ paths, q.place here ≠ p.place here

/-- The command writes none of the files that the paths lead to, unless it compiles. -/
def Command.ClearOf (paths : List Path) (c : Command) : Prop :=
  ∀ here, ∀ p ∈ paths, c.Writes here (p.place here) → c.Compiles here (p.place here)

namespace World
variable {P P' : Command → Prop} {p q : Path} {paths paths' : List Path} {w w' w'' : World}

/-- The file that the path leads to keeps its text. It stays the same file, with its time, unless one
of the commands compiles to it. -/
structure Untouched (p : Path) (started : List Command) (w w' : World) : Prop where
  text : w'.disk.files.textAt (p.place w.disk.here) = w.disk.files.textAt (p.place w.disk.here)
  file : w'.disk.files.file? (p.place w.disk.here) = w.disk.files.file? (p.place w.disk.here) ∨
    ∃ c ∈ started, c.Compiles w.disk.here (p.place w.disk.here)

/-- Commands of one kind only are started, and some files are left alone. -/
structure Withheld (P : Command → Prop) (paths : List Path) (w w' : World) : Prop where
  here : w'.disk.here = w.disk.here
  grounded : w'.disk.Grounded
  started : ∃ started, w'.commands = w.commands ++ started ∧ (∀ c ∈ started, P c) ∧
    ∀ p ∈ paths, Untouched p started w w'

/-- The same, on a disk where all stands in directories. -/
def Withholds (P : Command → Prop) (paths : List Path) (w w' : World) : Prop :=
  w.disk.Grounded → Withheld P paths w w'

theorem Withheld.trans (h : Withheld P paths w w') (h' : Withheld P paths w' w'') :
    Withheld P paths w w'' := by
  obtain ⟨hhere, -, started, hcommands, hstarted, hfiles⟩ := h
  obtain ⟨hhere', hgrounded, started', hcommands', hstarted', hfiles'⟩ := h'
  refine ⟨hhere'.trans hhere, hgrounded, started ++ started', ?_, ?_, fun p hp => ?_⟩
  · rw [hcommands', hcommands, List.append_assoc]
  · intro c hc
    exact (List.mem_append.1 hc).elim (hstarted c) (hstarted' c)
  · obtain ⟨htext, hfile⟩ := hfiles p hp
    obtain ⟨htext', hfile'⟩ := hfiles' p hp
    rw [hhere] at htext' hfile'
    refine ⟨htext'.trans htext, ?_⟩
    rcases hfile' with hsame' | ⟨c, hc, hcompiles⟩
    · refine hfile.imp hsame'.trans ?_
      rintro ⟨c, hc, hcompiles⟩
      exact ⟨c, List.mem_append_left _ hc, hcompiles⟩
    · exact .inr ⟨c, List.mem_append_right _ hc, hcompiles⟩

/-- To withhold less is easier. -/
theorem Withholds.mono (h : Withholds P paths w w') (hP : ∀ c, P c → P' c)
    (hpaths : paths' ⊆ paths) : Withholds P' paths' w w' := by
  intro hw
  obtain ⟨hhere, hgrounded, started, hcommands, hstarted, hfiles⟩ := h hw
  exact ⟨hhere, hgrounded, started, hcommands, fun c hc => hP c (hstarted c hc),
    fun p hp => hfiles p (hpaths hp)⟩

private theorem exists_other (place : Place) : ∃ other, place ≠ other := by
  refine ⟨place ++ [default], fun h => ?_⟩
  exact absurd (List.self_eq_append_right.1 h) (List.cons_ne_nil _ _)

/-- A step without a command that leaves some places alone, those of the paths among them. -/
private theorem withheld_of_leaves {S : Place → Prop} {d : Disk}
    (h : ∀ place, S place → Disk.Leaves place w.disk d) (hsome : ∃ place, S place)
    (hpaths : ∀ p ∈ paths, S (p.place w.disk.here)) : Withheld P paths w { w with disk := d } := by
  obtain ⟨place, hplace⟩ := hsome
  obtain ⟨hhere, hgrounded, -, -⟩ := h place hplace
  refine ⟨hhere, hgrounded, [], (List.append_nil _).symm, List.forall_mem_nil _, fun p hp => ?_⟩
  have hp := h _ (hpaths p hp)
  exact ⟨hp.leavesText.text, .inl hp.file⟩

theorem Spoken.withholds (h : Spoken w w') : Withholds P paths w w' := by
  obtain ⟨console, rfl⟩ := h
  exact fun hw => ⟨rfl, hw, [], (List.append_nil _).symm, List.forall_mem_nil _,
    fun _ _ => ⟨rfl, .inl rfl⟩⟩

instance : IsPreorder World (Withholds P paths) where
  refl w := Spoken.withholds (refl_of Spoken w)
  trans _ _ _ h h' hw := (h hw).trans (h' (h hw).grounded)

/-- No command is started, and only the file at the path may change, though not its text. -/
private structure Redone (q : Path) (w w' : World) : Prop where
  commands : w'.commands = w.commands
  text : ∀ place, Disk.LeavesText place w.disk w'.disk
  leaves : ∀ place, q.place w.disk.here ≠ place → Disk.Leaves place w.disk w'.disk

private def Redoes (q : Path) (w w' : World) : Prop := w.disk.Grounded → Redone q w w'

private instance : IsPreorder World (Redoes q) where
  refl w hw := ⟨rfl, fun _ => (Disk.Leaves.refl hw).leavesText, fun _ _ => .refl hw⟩
  trans w w' w'' h h' hw := by
    obtain ⟨hcommands, htext, hleaves⟩ := h hw
    obtain ⟨hcommands', htext', hleaves'⟩ := h' (htext []).grounded
    refine ⟨hcommands'.trans hcommands, fun place => (htext place).trans (htext' place), ?_⟩
    intro place hplace
    rw [(htext []).here] at hleaves'
    exact (hleaves place hplace).trans (hleaves' place hplace)

private theorem keeps_redo (c : Command) : Keeps (Redoes q) (renew c q) := by
  have hdirectories : Keeps (Redoes q) (ensureDirectories q.parent) :=
    Keeps.attempt fun w hw =>
      ⟨rfl, fun place => (Disk.leaves_ensureDirectories hw q.parent place).leavesText,
        fun place _ => Disk.leaves_ensureDirectories hw q.parent place⟩
  have htouch : Keeps (Redoes q) (change (·.touch q none)) :=
    Keeps.change fun w d hd hw =>
      ⟨rfl, fun _ => Disk.leavesText_touch hw hd, fun _ => Disk.leaves_touch hw hd⟩
  exact (Keeps.failingAs hdirectories).bind fun _ => Keeps.failingAs htouch

private theorem keeps_run {c : Command} (hP : P c) (hclear : c.ClearOf paths) :
    Keeps (Withholds P paths) (World.run c) := by
  intro w hw
  by_cases hplain : c.output? = none ∨ w.tools.rule? c ≠ none
  · have hstarted : Withheld P paths w (w.started c) :=
      ⟨rfl, hw, [c], rfl, List.forall_mem_singleton.2 hP, fun _ _ => ⟨rfl, .inl rfl⟩⟩
    rw [run_eq_reply hplain]
    cases w.tools.reply c <;> exact hstarted
  · obtain ⟨hout, hrule⟩ := not_or.1 hplain
    obtain ⟨q, hq⟩ := Option.ne_none_iff_exists'.1 hout
    rw [run_eq_renew (not_not.1 hrule) hq]
    obtain ⟨hcommands, htext, hleaves⟩ :=
      ((keeps_redo (q := q) c).bind fun _ => .pure (some (c.shows w.tools.listings)))
        (w.started c) hw
    refine ⟨(htext []).here, (htext []).grounded, [c], hcommands, List.forall_mem_singleton.2 hP,
      fun p hp => ⟨(htext _).text, ?_⟩⟩
    by_cases hplace : q.place w.disk.here = p.place w.disk.here
    · exact .inr ⟨c, List.mem_singleton_self c, hclear _ p hp ⟨q, hq, hplace⟩⟩
    · exact .inl (hleaves _ hplace).file

/-- Directories may be made anywhere. All else has to keep clear of the paths. -/
theorem conduct_withholds (P : Command → Prop) (paths : List Path) :
    Conduct (fun c => P c ∧ c.ClearOf paths) (Path.ClearOf paths) (Path.ClearOf paths)
      (Withholds P paths) where
  spoken _ _ := Spoken.withholds
  directories p := Keeps.attempt fun _ hw =>
    withheld_of_leaves (S := fun _ => True) (fun q _ => Disk.leaves_ensureDirectories hw p q)
      ⟨[], trivial⟩ fun _ _ => trivial
  record p text hp := Keeps.attempt fun w hw =>
    withheld_of_leaves (S := (p.place w.disk.here ≠ ·))
      (fun _ => Disk.leaves_writeIfChanged hw text) (exists_other _) (hp w.disk.here)
  delete p hp := Keeps.change fun w _ hd hw =>
    withheld_of_leaves (S := (p.place w.disk.here ≠ ·))
      (fun _ => Disk.leaves_delete hw hd) (exists_other _) (hp w.disk.here)
  run _ hc := keeps_run hc.1 hc.2

end World
end DualImage
