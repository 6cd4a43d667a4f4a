import DualImage.Proofs.Compiler.Conduct
import DualImage.Proofs.Workspace.Files

/-! How compiling, archiving and linking fail: before a command is started, or by the command. -/
namespace DualImage
variable {w w' : World} {f : Failure}

namespace World
variable {α β : Type}

theorem isStale_eq_error {output : Path} {inputs : List Path}
    (hr : isStale output inputs w = .error f w') : f.Local ∧ w' = w := by
  rw [isStale_apply] at hr
  split at hr
  · cases hr
  · cases hr
  · next g hs =>
    cases hr
    exact ⟨Sound.staleness? w.disk output inputs f hs, rfl⟩

private theorem attempt_bind_eq_error {step : Disk → Except FileFault α × Disk} {k : α → Action β}
    (hr : (attempt step >>= k) w = .error f w') :
    (f.Local ∧ ∃ fault, step w.disk = (.error fault, w'.disk)) ∨
      ∃ x d, step w.disk = (.ok x, d) ∧ k x { w with disk := d } = .error f w' := by
  rcases Action.bind_eq_error_iff.1 hr with hr | ⟨x, w₁, hx, hr⟩
  · obtain ⟨hf, fault, d, hd, rfl⟩ := attempt_eq_error hr
    exact .inl ⟨hf, fault, hd⟩
  · obtain ⟨d, hd, rfl⟩ := attempt_eq_ok hx
    exact .inr ⟨x, d, hd, hr⟩

private theorem change_bind_eq_error {step : Disk → Except FileFault Disk} {k : Unit → Action β}
    (hr : (change step >>= k) w = .error f w') :
    f.Local ∧ w'.disk = w.disk ∨
      ∃ d, step w.disk = .ok d ∧ k () { w with disk := d } = .error f w' := by
  rcases attempt_bind_eq_error hr with ⟨hf, fault, hd⟩ | ⟨_, d, hd, hr⟩
  · split at hd
    · cases hd
    · exact .inl ⟨hf, (congrArg Prod.snd hd).symm⟩
  · split at hd
    · next d' hstep =>
      cases hd
      exact .inr ⟨_, hstep, hr⟩
    · cases hd

private theorem lift_bind_eq_error {r : Except Failure α} {k : α → Action β} (hsound : Sound r)
    (hr : (lift r >>= k) w = .error f w') :
    f.Local ∧ w' = w ∨ ∃ x, r = .ok x ∧ k x w = .error f w' := by
  cases hx : r with
  | ok x =>
    rw [hx] at hr
    exact .inr ⟨x, rfl, hr⟩
  | error g =>
    rw [hx] at hr
    cases hr
    exact .inl ⟨hsound f hx, rfl⟩

private theorem say_bind_eq_error {level : Int} {message : Text} {k : Unit → Action β}
    (hr : (say level message >>= k) w = .error f w') :
    ∃ w₁, Spoken w w₁ ∧ k () w₁ = .error f w' :=
  ⟨{ w with console := w.console.say level message }, ⟨_, rfl⟩, hr⟩

private theorem isStale_bind_eq_error {output : Path} {inputs : List Path} {k : Bool → Action β}
    (hr : (isStale output inputs >>= k) w = .error f w') :
    f.Local ∧ w' = w ∨ ∃ stale w₁, isStale output inputs w = .ok stale w₁ ∧ Spoken w w₁ ∧
      k stale w₁ = .error f w' := by
  rcases Action.bind_eq_error_iff.1 hr with hr | ⟨stale, w₁, hstale, hr⟩
  · exact .inl (isStale_eq_error hr)
  · exact .inr ⟨stale, w₁, hstale, isStale_eq_ok hstale, hr⟩

/-- Whatever a command fails for, the files stay. -/
theorem leaves_of_run_error {c : Command} (hw : w.disk.Grounded) (hr : run c w = .error f w')
    (place : Place) : Disk.Leaves place w.disk w'.disk := by
  obtain ⟨-, d, rfl, hd⟩ := run_eq_error hr
  rcases hd with rfl | ⟨p, -, rfl⟩
  · exact .refl hw
  · exact Disk.leaves_ensureDirectories hw p.parent place

end World

namespace Compiler
open World
variable {c : Compiler} {objects : List Path} {path : Path}

/-- A source that cannot be compiled has an object that is out of date, when it is the compiler that
fails. -/
theorem compileSource_eq_error {package : Package} {defines : List Document} {source object : Path}
    (hr : c.compileSource package defines source object w = .error f w') :
    f.Local ∨ ∃ command w₁, w.disk.Overdue object [source] ∧
      c.compileCommand package defines source object = .ok command ∧ Spoken w w₁ ∧
      run command w₁ = .error f w' := by
  rcases isStale_bind_eq_error hr with ⟨hf, -⟩ | ⟨stale, w₁, hstale, hspoken, hr⟩
  · exact .inl hf
  · cases stale with
    | false => cases hr
    | true =>
      obtain ⟨w₂, hsay, hr⟩ := say_bind_eq_error hr
      rcases lift_bind_eq_error (Sound.compileCommand c package defines source object) hr
        with ⟨hf, -⟩ | ⟨command, hcommand, hr⟩
      · exact .inl hf
      · exact .inr ⟨command, w₂, (isStale_eq_true hstale).2, hcommand,
          trans_of Spoken hspoken hsay, Action.discard_eq_error_iff.1 hr⟩

/-- A package that cannot be compiled has been compiled up to one of its sources. -/
theorem compile_eq_error {package : Package} {objectDir : Path} {defines : List Document}
    (hr : c.compile package objectDir defines w = .error f w') :
    f.Local ∨ ∃ objects w₁, objectPaths? package.sources objectDir = some objects ∧
      ensureDirectories objectDir w = .ok () w₁ ∧ ∃ front pair back t,
        package.sources.zip objects = front ++ pair :: back ∧
        front.forM (fun pair => c.compileSource package defines pair.1 pair.2) w₁ = .ok ⟨⟩ t ∧
        c.compileSource package defines pair.1 pair.2 t = .error f w' := by
  rcases attempt_bind_eq_error hr with ⟨hf, -⟩ | ⟨_, d, hd, hr⟩
  · exact .inl hf
  · rcases lift_bind_eq_error (Sound.objectPaths package.sources objectDir) hr
      with ⟨hf, -⟩ | ⟨objects, hobjects, hr⟩
    · exact .inl hf
    · rcases Action.bind_eq_error_iff.1 hr with hr | ⟨_, _, -, hr⟩
      · obtain ⟨front, pair, back, t, hzip, hfront, hpair⟩ := Action.forM_eq_error hr
        exact .inr ⟨objects, _, objectPaths_eq_ok_iff.1 hobjects, attempt_of_ok hd, front, pair, back, t,
          hzip, hfront, hpair⟩
      · cases hr

/-- An archive that cannot be made has not been touched, or the old one is gone. -/
theorem archive_eq_error (hr : c.archive objects path w = .error f w') :
    f.Local ∧ w'.disk = (w.disk.ensureDirectories path.parent).2 ∨
      ∃ d d', w.disk.ensureDirectories path.parent = (.ok (), d) ∧ d.Overdue path objects ∧
        (if (d.entry path).isOk then d.delete path = .ok d' else d' = d) ∧
        (f.Local ∧ w'.disk = d' ∨ ∃ tool w₁, c.tool "ar" = .ok tool ∧
          Spoken { w with disk := d' } w₁ ∧
          run (tool :: "rcs" :: path.toText :: objects.map Path.toText) w₁ = .error f w') := by
  rcases attempt_bind_eq_error hr with ⟨hf, fault, hd⟩ | ⟨_, d, hd, hr⟩
  · exact .inl ⟨hf, (congrArg Prod.snd hd).symm⟩
  · rcases isStale_bind_eq_error hr with ⟨hf, rfl⟩ | ⟨stale, w₁, hstale, ⟨console, rfl⟩, hr⟩
    · exact .inl ⟨hf, by rw [hd]⟩
    · cases stale with
      | false => cases hr
      | true =>
        have hrest {d' : Disk} (hr : (do
            say Console.normal ("Archiving " ++ path.name)
            discard <| c.runTool "ar" ("rcs" :: path.toText :: objects.map Path.toText)
            return path : Action Path) { w with disk := d', console } = .error f w') :
            f.Local ∧ w'.disk = d' ∨ ∃ tool w₁, c.tool "ar" = .ok tool ∧
              Spoken { w with disk := d' } w₁ ∧
              run (tool :: "rcs" :: path.toText :: objects.map Path.toText) w₁ = .error f w' := by
          obtain ⟨w₂, hsay, hr⟩ := say_bind_eq_error hr
          rcases Action.bind_eq_error_iff.1 hr with hr | ⟨_, _, -, hr⟩
          · rcases lift_bind_eq_error (Sound.tool c "ar") (Action.discard_eq_error_iff.1 hr)
              with ⟨hf, rfl⟩ | ⟨tool, htool, hr⟩
            · exact .inl ⟨hf, hsay.unmoved.disk⟩
            · exact .inr ⟨tool, w₂, htool, trans_of Spoken ⟨console, rfl⟩ hsay, hr⟩
          · cases hr
        have hoverdue := (isStale_eq_true hstale).2
        replace hr := (Action.get_bind_apply _ _).symm.trans hr
        by_cases hthere : (d.entry path).isOk = true
        · rw [if_pos hthere] at hr
          rcases change_bind_eq_error hr with ⟨hf, hdisk⟩ | ⟨d', hdelete, hr⟩
          · exact .inl ⟨hf, by rw [hd]; exact hdisk⟩
          · exact .inr ⟨d, d', hd, hoverdue, by rw [if_pos hthere]; exact hdelete, hrest hr⟩
        · rw [if_neg hthere] at hr
          exact .inr ⟨d, d, hd, hoverdue, by rw [if_neg hthere], hrest hr⟩

/-- A binary that cannot be linked is out of date, when it is the linker that fails, and its command has
been recorded. -/
theorem link_eq_error {archives symbolFiles : List Path} {script output : Path}
    (hr : c.link archives script output symbolFiles w = .error f w') :
    f.Local ∧ w'.disk = (w.disk.ensureDirectories output.parent).2 ∨
      ∃ d record command, w.disk.ensureDirectories output.parent = (.ok (), d) ∧
        beside output ".cmd" = .ok record ∧
        c.linkCommand archives script output symbolFiles = .ok command ∧
        (f.Local ∧ w'.disk = (d.writeIfChanged record (command.text ++ "\n")).2 ∨
          ∃ b d' w₁, d.writeIfChanged record (command.text ++ "\n") = (.ok b, d') ∧
            d'.Overdue output (archives ++ symbolFiles ++ [script, record]) ∧
            Spoken { w with disk := d' } w₁ ∧ run command w₁ = .error f w') := by
  rcases attempt_bind_eq_error hr with ⟨hf, fault, hd⟩ | ⟨_, d, hd, hr⟩
  · exact .inl ⟨hf, (congrArg Prod.snd hd).symm⟩
  rcases lift_bind_eq_error (Sound.beside output ".cmd") hr with ⟨hf, rfl⟩ | ⟨record, hrecord, hr⟩
  · exact .inl ⟨hf, by rw [hd]⟩
  rcases lift_bind_eq_error (Sound.linkCommand c archives script output symbolFiles) hr
    with ⟨hf, rfl⟩ | ⟨command, hcommand, hr⟩
  · exact .inl ⟨hf, by rw [hd]⟩
  refine .inr ⟨d, record, command, hd, hrecord, hcommand, ?_⟩
  rcases Action.bind_eq_error_iff.1 hr with hr | ⟨_, w₁, hwrite, hr⟩
  · obtain ⟨hf, fault, d', hd', rfl⟩ := attempt_eq_error (Action.discard_eq_error_iff.1 hr)
    exact .inl ⟨hf, by rw [hd']⟩
  obtain ⟨b, hwrite⟩ := Action.discard_eq_ok_iff.1 hwrite
  obtain ⟨d', hd', rfl⟩ := attempt_eq_ok hwrite
  rcases isStale_bind_eq_error hr with ⟨hf, rfl⟩ | ⟨stale, w₂, hstale, hspoken, hr⟩
  · exact .inl ⟨hf, by rw [hd']⟩
  cases stale with
  | false =>
    obtain ⟨w₃, -, hr⟩ := say_bind_eq_error hr
    cases hr
  | true =>
    obtain ⟨w₃, hsay, hr⟩ := say_bind_eq_error hr
    rcases Action.bind_eq_error_iff.1 hr with hr | ⟨_, _, -, hr⟩
    · exact .inr ⟨b, d', w₃, hd', (isStale_eq_true hstale).2, trans_of Spoken hspoken hsay,
        Action.discard_eq_error_iff.1 hr⟩
    · cases hr

end Compiler
end DualImage
