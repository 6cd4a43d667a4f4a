import DualImage.Proofs.Workspace.Frame
import DualImage.Proofs.Workspace.Standing

/-! What tools do to the files that are there: a file may get another time, but it stays and keeps its
text, and so does a directory. -/
namespace DualImage
variable {d d' d'' : Disk} {p : Path} {place : Place} {e e' : Entry}

theorem Entry.stamp_time (e : Entry) : e.stamp e.time = e := by
  cases e <;> rfl

@[simp] theorem Entry.stamp_stamp (e : Entry) (t u : Int) : (e.stamp t).stamp u = e.stamp u := by
  cases e <;> rfl

@[simp] theorem Entry.text_stamp (e : Entry) (t : Int) : (e.stamp t).text = e.text := by
  cases e <;> rfl

namespace Disk

/-- All that is there stays, but for its times. -/
structure Persists (d d' : Disk) : Prop where
  here : d'.here = d.here
  entry : ∀ place e, d.files.find? place = some e → ∃ t, d'.files.find? place = some (e.stamp t)

instance : IsPreorder Disk Persists where
  refl d := ⟨rfl, fun _ e he => ⟨e.time, by rw [he, e.stamp_time]⟩⟩
  trans d d' d'' h h' := by
    refine ⟨h'.here.trans h.here, fun place e he => ?_⟩
    obtain ⟨t, ht⟩ := h.entry place e he
    obtain ⟨u, hu⟩ := h'.entry place _ ht
    exact ⟨u, by rw [hu, e.stamp_stamp]⟩

theorem Persists.isDirectory (h : Persists d d') (hdir : d.files.IsDirectory place) :
    d'.files.IsDirectory place := by
  obtain ⟨time, htime⟩ := hdir
  obtain ⟨t, ht⟩ := h.entry place _ htime
  exact ⟨t, ht⟩

/-- What is read from a file stays the same. -/
theorem Persists.read (h : Persists d d') {s : String} (hs : d.read p = .ok s) :
    d'.read p = .ok s := by
  obtain ⟨e, he, htext⟩ := Except.bind_eq_ok_iff.1 hs
  obtain ⟨place, hplace, hfind⟩ := entry_eq_ok_iff.1 he
  obtain ⟨t, ht⟩ := h.entry place e hfind
  refine Except.bind_eq_ok_iff.2 ⟨e.stamp t, entry_eq_ok_iff.2 ⟨place, ?_, ht⟩, ?_⟩
  · exact locate_mono h.here (fun _ => h.isDirectory) hplace
  · rw [e.text_stamp, htext]

theorem Persists.recorded (h : Persists d d') {text : Text} (hp : d.Recorded p text) :
    d'.Recorded p text := by
  obtain ⟨old, hold, htext⟩ := hp
  exact ⟨old, h.read hold, htext⟩

/-- What is put at a place is new there, or what was there at another time. -/
private theorem persists_put (clock : Int)
    (he : ∀ old, d.files.find? place = some old → ∃ t, e = old.stamp t) :
    Persists d ({ d with clock }.put place e) where
  here := by
    unfold put
    split <;> rfl
  entry q old hold := by
    rw [find?_put]
    by_cases hq : q = place
    · obtain ⟨t, rfl⟩ := he old (hq ▸ hold)
      exact ⟨t, if_pos hq⟩
    · rw [if_neg hq]
      simp only [hold]
      split
      · exact ⟨d.systemTime, rfl⟩
      · exact ⟨old.time, by rw [old.stamp_time]⟩

theorem persists_touch {time : Option Int} (h : d.touch p time = .ok d') : Persists d d' := by
  obtain ⟨place, -, h⟩ := Except.bind_eq_ok_iff.1 h
  have hput (clock t : Int) : Persists d ({ d with clock }.put place
      (((d.files.find? place).map (Entry.stamp t)).getD (.file t ""))) :=
    persists_put clock fun old hold => ⟨t, by rw [hold]; rfl⟩
  cases h
  cases time with
  | none => exact hput _ _
  | some time => exact hput _ _

private theorem persists_makeDirectory (h : d.makeDirectory p = .ok d') : Persists d d' := by
  obtain ⟨place, -, h⟩ := Except.bind_eq_ok_iff.1 h
  split at h
  · cases h
  · next hnone =>
    cases h
    exact persists_put d.clock fun old hold => absurd (hnone.symm.trans hold) (by simp)

private theorem persists_ensureDirectory (h : d.ensureDirectory p = .ok d') : Persists d d' := by
  unfold ensureDirectory at h
  split at h
  · next hmake =>
    cases h
    exact persists_makeDirectory hmake
  · cases h
  · split at h
    · cases h
      exact refl_of Persists d
    · cases h

theorem persists_ensureDirectories (d : Disk) (p : Path) :
    Persists d (d.ensureDirectories p).2 := by
  fun_induction ensureDirectories d p with
  | case1 p d' h => exact persists_ensureDirectory h
  | case3 p hmissing hparts d₁ habove d₂ hagain ih =>
    rw [habove] at ih
    exact trans_of Persists ih (persists_ensureDirectory hagain)
  | case4 p hmissing hparts d₁ habove fault hagain ih
  | case5 p hmissing hparts fault d₁ habove ih =>
    rw [habove] at ih
    exact ih
  | case2 | case6 => exact refl_of Persists d

end Disk

/-- Commands leave what is there, but for its times. -/
def World.Persists (w w' : World) : Prop := w.disk.Persists w'.disk

instance : IsPreorder World World.Persists where
  refl w := refl_of Disk.Persists w.disk
  trans _ _ _ := trans_of Disk.Persists

theorem Unmoved.persists {w w' : World} (h : Unmoved w w') : w.Persists w' := by
  rw [World.Persists, h.disk]
  exact refl_of Disk.Persists w.disk

namespace Keeps
open World (Persists)
variable {c : Command}

private theorem renew_persists (p : Path) : Keeps Persists (World.renew c p) := by
  have hdirectories : Keeps Persists (World.ensureDirectories p.parent) :=
    attempt fun w => Disk.persists_ensureDirectories w.disk p.parent
  have htouch : Keeps Persists (World.change (·.touch p none)) :=
    change fun w d h => Disk.persists_touch h
  exact (failingAs hdirectories).bind fun _ => failingAs htouch

/-- Whatever command is run, and whether it succeeds or not. -/
theorem run_persists : Keeps Persists (World.run c) := by
  intro w
  have hstarted : w.Persists (w.started c) := (World.unmoved_started w c).persists
  by_cases hplain : c.output? = none ∨ w.tools.rule? c ≠ none
  · rw [World.run_eq_reply hplain]
    cases w.tools.reply c <;> exact hstarted
  · obtain ⟨hout, hrule⟩ := not_or.1 hplain
    obtain ⟨q, hq⟩ := Option.ne_none_iff_exists'.1 hout
    rw [World.run_eq_renew (not_not.1 hrule) hq]
    exact trans_of Persists hstarted (((renew_persists q).bind fun _ => .pure _) _)

end Keeps
end DualImage
