import DualImage.Proofs.Workspace.Frame

/-! What steps make of a disk on which everything stands in a directory: a place stays as it is, gets
or stays a directory, or is given a file that is newer than all that was there. -/
namespace DualImage

namespace FileTree
variable {t : FileTree} {place : Place} {e : Entry}

theorem IsDirectory.ne_none (h : t.IsDirectory place) : t.find? place ≠ none := by
  obtain ⟨time, htime⟩ := h
  rw [htime]
  exact Option.some_ne_none _

theorem not_isDirectory_of_find? (h : t.find? place = some e) (he : e.isDirectory = false) :
    ¬ t.IsDirectory place := by
  rw [isDirectory_iff, h, Option.any_some, he]
  exact Bool.false_ne_true

end FileTree

namespace Disk
variable {d d' d'' : Disk} {p : Path} {place : Place} {written written' : Place → Prop}

/-- Root and current directory are there, and everything stands in a directory. -/
structure Grounded (d : Disk) : Prop where
  root : d.files.IsDirectory []
  here : d.files.IsDirectory d.here
  above : ∀ place, d.files.find? place ≠ none → d.files.IsDirectory place.dropLast

theorem grounded_iff : d.Grounded ↔ d.files.IsDirectory [] ∧ d.files.IsDirectory d.here ∧
    ∀ x ∈ d.files.entries, ∀ _e ∈ d.files.find? x.1, d.files.IsDirectory x.1.dropLast := by
  rw [← FileTree.forall_find?_iff (p := fun place _ => d.files.IsDirectory place.dropLast)]
  constructor
  · intro h
    refine ⟨h.root, h.here, fun place e he => h.above place ?_⟩
    rw [he]
    exact Option.some_ne_none e
  · rintro ⟨hroot, hhere, habove⟩
    refine ⟨hroot, hhere, fun place hplace => ?_⟩
    obtain ⟨e, he⟩ := Option.ne_none_iff_exists'.1 hplace
    exact habove place e he

instance (d : Disk) : Decidable d.Grounded := decidable_of_iff _ grounded_iff.symm

/-- A path that leads to nothing leads to a gap in a directory. -/
theorem Grounded.isDirectory_dropLast (hd : d.Grounded) (h : d.locate p = .ok place) :
    d.files.IsDirectory place.dropLast := by
  by_cases hthere : d.files.find? place = none
  · by_cases hp : p.parts = []
    · obtain ⟨-, hlocate⟩ := locate_eq_ok_iff.1 h
      rw [hp] at hlocate
      cases hlocate
      exact absurd hthere (by split; exacts [hd.root.ne_none, hd.here.ne_none])
    · obtain ⟨above, -, hdir, hstep⟩ := locate_parent hp h
      rw [FileTree.eq_enter_of_step hstep] at hthere ⊢
      unfold Path.enter at hthere ⊢
      split_ifs at hthere ⊢ with hdot hdots
      · exact absurd hthere hdir.ne_none
      · exact absurd hthere (hd.above above hdir.ne_none).ne_none
      · rw [List.dropLast_concat]
        exact hdir
  · exact hd.above place hthere

/-- What has become of a place. -/
inductive Turn (d d' : Disk) (written : Prop) (place : Place) : Prop
  | same (h : d'.files.find? place = d.files.find? place)
  | directory (h : d.files.find? place = none ∨ d.files.IsDirectory place)
    (h' : d'.files.IsDirectory place)
  | renewed (e : Entry) (h : ¬ d.files.IsDirectory place) (h' : d'.files.find? place = some e)
    (file : e.isDirectory = false) (newer : d.clock < e.time) (past : e.time ≤ d'.clock)
    (hw : written)

namespace Turn
variable {w w' : Prop}

theorem imp (h : Turn d d' w place) (hw : w → w') : Turn d d' w' place := by
  cases h with
  | same h => exact .same h
  | directory h h' => exact .directory h h'
  | renewed e h h' file newer past hwritten => exact .renewed e h h' file newer past (hw hwritten)

theorem isDirectory (h : Turn d d' w place) (hdir : d.files.IsDirectory place) :
    d'.files.IsDirectory place := by
  cases h with
  | same h =>
    obtain ⟨time, htime⟩ := hdir
    exact ⟨time, h ▸ htime⟩
  | directory _ h' => exact h'
  | renewed _ h => exact absurd hdir h

theorem trans (h : Turn d d' w place) (h' : Turn d' d'' w place) (hclock : d.clock ≤ d'.clock)
    (hclock' : d'.clock ≤ d''.clock) : Turn d d'' w place := by
  cases h' with
  | same hsame =>
    cases h with
    | same h => exact .same (hsame.trans h)
    | directory h hdir => exact .directory h (by unfold FileTree.IsDirectory; rw [hsame]; exact hdir)
    | renewed e h he file newer past hw =>
      exact .renewed e h (hsame.trans he) file newer (Int.le_trans past hclock') hw
  | directory hbefore hdir =>
    cases h with
    | same h =>
      refine .directory ?_ hdir
      unfold FileTree.IsDirectory at hbefore ⊢
      rw [h] at hbefore
      exact hbefore
    | directory h _ => exact .directory h hdir
    | renewed e h he file =>
      rcases hbefore with hnone | hbefore
      · rw [he] at hnone
        cases hnone
      · exact absurd hbefore (FileTree.not_isDirectory_of_find? he file)
  | renewed e hfile he file newer past hw =>
    refine .renewed e (fun hdir => hfile (h.isDirectory hdir)) he file ?_ past hw
    exact Int.lt_of_le_of_lt hclock newer

end Turn

/-- The disk has gone on, and new files are where they may be written. -/
structure Advances (written : Place → Prop) (d d' : Disk) : Prop where
  here : d'.here = d.here
  clock : d.clock ≤ d'.clock
  grounded : d'.Grounded
  turn : ∀ place, Turn d d' (written place) place

namespace Advances

theorem refl (hd : d.Grounded) : Advances written d d :=
  ⟨rfl, Int.le_refl _, hd, fun _ => .same rfl⟩

theorem trans (h : Advances written d d') (h' : Advances written d' d'') :
    Advances written d d'' where
  here := h'.here.trans h.here
  clock := Int.le_trans h.clock h'.clock
  grounded := h'.grounded
  turn place := (h.turn place).trans (h'.turn place) h.clock h'.clock

theorem imp (h : Advances written d d') (hw : ∀ place, written place → written' place) :
    Advances written' d d' :=
  ⟨h.here, h.clock, h.grounded, fun place => (h.turn place).imp (hw place)⟩

theorem isDirectory (h : Advances written d d') (hdir : d.files.IsDirectory place) :
    d'.files.IsDirectory place :=
  (h.turn place).isDirectory hdir

theorem locate (h : Advances written d d') (hp : d.locate p = .ok place) : d'.locate p = .ok place :=
  locate_mono h.here (fun _ => h.isDirectory) hp

/-- A file stays a file, as it is or newer. -/
theorem file (h : Advances written d d') {e : Entry} (he : d.files.find? place = some e)
    (hfile : e.isDirectory = false) :
    ∃ e', d'.files.find? place = some e' ∧ e'.isDirectory = false ∧ (e' = e ∨ d.clock < e'.time) := by
  cases h.turn place with
  | same h => exact ⟨e, h.trans he, hfile, .inl rfl⟩
  | directory hbefore =>
    rcases hbefore with hnone | hdir
    · rw [he] at hnone
      cases hnone
    · exact absurd hdir (FileTree.not_isDirectory_of_find? he hfile)
  | renewed e' _ h' file newer => exact ⟨e', h', file, .inr newer⟩

end Advances

/-- Where directories stay and something new only comes into directories, everything keeps standing
in a directory. -/
theorem Grounded.of_new (hd : d.Grounded) (hhere : d'.here = d.here)
    (hkeep : ∀ q, d.files.IsDirectory q → d'.files.IsDirectory q)
    (hnew : ∀ q, d'.files.find? q ≠ none → d.files.find? q = none → d.files.IsDirectory q.dropLast) :
    d'.Grounded where
  root := hkeep _ hd.root
  here := hhere ▸ hkeep _ hd.here
  above q hq := by
    by_cases hold : d.files.find? q = none
    · exact hkeep _ (hnew q hq hold)
    · exact hkeep _ (hd.above q hold)

theorem Renewed.advances (hr : Renewed place d d') (hd : d.Grounded) (hp : d.locate p = .ok place) :
    Advances (· = place) d d' where
  here := hr.here
  clock := by
    rw [hr.clock]
    omega
  grounded := by
    refine hd.of_new hr.here (fun q => (hr.directory q).2) fun q hq hnone => ?_
    by_cases hplace : q = place
    · exact hplace ▸ hd.isDirectory_dropLast hp
    · rcases hr.others q hplace with hsame | ⟨hstamp, -⟩
      · exact absurd (hsame.trans hnone) hq
      · rw [hstamp, hnone] at hq
        exact absurd rfl hq
  turn q := by
    by_cases hplace : q = place
    · subst hplace
      by_cases hdir : d.files.IsDirectory q
      · exact .directory (.inr hdir) ((hr.directory q).2 hdir)
      · obtain ⟨e, he, htime⟩ := hr.entry
        have hfile : e.isDirectory = false := by
          have hnot := (hr.directory q).not.2 hdir
          rw [FileTree.isDirectory_iff, he, Option.any_some] at hnot
          exact Bool.of_not_eq_true hnot
        refine .renewed e hdir he hfile ?_ (Int.le_of_eq htime) rfl
        rw [htime, hr.clock]
        omega
    · rcases hr.others q hplace with hsame | ⟨-, rfl, -⟩
      · exact .same hsame
      · have hdir := hd.isDirectory_dropLast hp
        exact .directory (.inr hdir) ((hr.directory _).2 hdir)

private theorem advances_makeDirectory (hd : d.Grounded) (h : d.makeDirectory p = .ok d') :
    Advances written d d' := by
  obtain ⟨place, hplace, h⟩ := Except.bind_eq_ok_iff.1 h
  cases hfind : d.files.find? place with
  | some e =>
    rw [hfind] at h
    cases h
  | none =>
    rw [hfind] at h
    cases h
    have habove := hd.isDirectory_dropLast hplace
    have hhere : (d.put place (.directory d.systemTime)).here = d.here := by
      unfold put
      split <;> rfl
    have hclock : (d.put place (.directory d.systemTime)).clock = d.clock := by
      unfold put
      split <;> rfl
    have hmade : (d.put place (.directory d.systemTime)).files.IsDirectory place :=
      ⟨d.systemTime, by rw [find?_put, if_pos rfl]⟩
    have hturn (q : Place) : Turn d (d.put place (.directory d.systemTime)) (written q) q := by
      by_cases hq : q = place
      · rw [hq]
        exact .directory (.inl hfind) hmade
      · by_cases hq' : q = place.dropLast
        · obtain ⟨time, htime⟩ := habove
          rw [hq']
          refine .directory (.inr ⟨time, htime⟩) ⟨d.systemTime, ?_⟩
          rw [find?_put, if_neg (hq' ▸ hq), if_pos ⟨rfl, hfind⟩, htime]
          rfl
        · refine .same ?_
          rw [find?_put, if_neg hq, if_neg fun h => hq' h.1]
    refine ⟨hhere, Int.le_of_eq hclock.symm, ?_, hturn⟩
    refine hd.of_new hhere (fun q => (hturn q).isDirectory) fun q hq hnone => ?_
    by_cases hplace : q = place
    · exact hplace ▸ habove
    · rw [find?_put, if_neg hplace, hnone] at hq
      simp at hq

private theorem advances_ensureDirectory (hd : d.Grounded) (h : d.ensureDirectory p = .ok d') :
    Advances written d d' := by
  unfold ensureDirectory at h
  split at h
  · next hmake =>
    cases h
    exact advances_makeDirectory hd hmake
  · cases h
  · split at h
    · cases h
      exact .refl hd
    · cases h

/-- Making directories puts no file anywhere. -/
theorem advances_ensureDirectories (written : Place → Prop) (hd : d.Grounded) (p : Path) :
    Advances written d (d.ensureDirectories p).2 := by
  fun_induction ensureDirectories d p with
  | case1 p d' h => exact advances_ensureDirectory hd h
  | case3 p hmissing hparts d₁ habove d₂ hagain ih =>
    rw [habove] at ih
    exact ih.trans (advances_ensureDirectory ih.grounded hagain)
  | case4 p hmissing hparts d₁ habove fault hagain ih
  | case5 p hmissing hparts fault d₁ habove ih =>
    rw [habove] at ih
    exact ih
  | case2 | case6 => exact .refl hd

/-- The disk without the file that a path leads to. -/
theorem delete_eq_ok (h : d.delete p = .ok d') :
    ∃ place, d.locate p = .ok place ∧ ¬ d.files.IsDirectory place ∧ d'.here = d.here ∧
      d'.clock = d.clock ∧ ∀ q, d'.files.find? q =
        if q = place.dropLast then
          (if q = place then none else d.files.find? q).map (·.stamp d.systemTime)
        else if q = place then none else d.files.find? q := by
  obtain ⟨place, hplace, h⟩ := Except.bind_eq_ok_iff.1 h
  refine ⟨place, hplace, ?_⟩
  split at h
  · cases h
  · cases h
  · next time text hfind =>
    cases h
    refine ⟨FileTree.not_isDirectory_of_find? hfind rfl, rfl, rfl, fun q => ?_⟩
    simp only [renewDirectory]
    rw [FileTree.find?_stamp, FileTree.find?_erase]

section
variable (h : d.delete p = .ok d')
include h

theorem isDirectory_delete {q : Place} (hq : d.files.IsDirectory q) :
    d'.files.IsDirectory q := by
  obtain ⟨place, -, hfile, -, -, hfind⟩ := delete_eq_ok h
  have hne : q ≠ place := by
    rintro rfl
    exact hfile hq
  obtain ⟨time, htime⟩ := hq
  unfold FileTree.IsDirectory
  rw [hfind, if_neg hne, htime]
  split
  · exact ⟨d.systemTime, rfl⟩
  · exact ⟨time, rfl⟩

variable (hd : d.Grounded)
include hd

theorem grounded_delete : d'.Grounded := by
  obtain ⟨place, -, -, hhere, -, hfind⟩ := delete_eq_ok h
  refine hd.of_new hhere (fun q => isDirectory_delete h) fun q hq hnone => ?_
  rw [hfind, hnone] at hq
  simp at hq

/-- The directory around a deleted file is still there. -/
theorem ensureDirectories_delete : d'.ensureDirectories p.parent = (.ok (), d') := by
  obtain ⟨place, hplace, hfile, hhere, -⟩ := delete_eq_ok h
  have hp : p.parts ≠ [] := by
    intro hp
    obtain ⟨-, hlocate⟩ := locate_eq_ok_iff.1 hplace
    rw [hp] at hlocate
    cases hlocate
    split at hfile
    · exact hfile hd.root
    · exact hfile hd.here
  obtain ⟨above, habove, hdir, -⟩ := locate_parent hp hplace
  refine ensureDirectories_of_hasDirectory (hasDirectory_iff.2 ⟨above, ?_, isDirectory_delete h hdir⟩)
  exact locate_mono hhere (fun _ => isDirectory_delete h) habove

/-- A file that is deleted and written anew is renewed. -/
theorem advances_delete_renewed (hr : Renewed place d' d'') (hp : d'.locate p = .ok place) :
    Advances (· = place) d d'' := by
  obtain ⟨place', hplace, hfile, hhere, hclock, hfind⟩ := delete_eq_ok h
  obtain rfl : place = place' := by
    rw [eq_place_of_locate hp, eq_place_of_locate hplace, hhere]
  have hgap : d'.files.find? place = none := by
    rw [hfind, if_pos rfl]
    split <;> rfl
  have hnext := hr.advances (grounded_delete h hd) hp
  refine ⟨hnext.here.trans hhere, hclock ▸ hnext.clock, hnext.grounded, fun q => ?_⟩
  by_cases hq : q = place
  · subst hq
    cases hnext.turn q with
    | same h =>
      obtain ⟨e, he, -⟩ := hr.entry
      rw [he, hgap] at h
      cases h
    | directory _ h' => exact absurd hgap ((hr.directory q).1 h').ne_none
    | renewed e _ he file newer past => exact .renewed e hfile he file (hclock ▸ newer) past rfl
  · have hfirst : Turn d d' (q = place) q := by
      by_cases habove : q = place.dropLast
      · have hdirectory := hd.isDirectory_dropLast hplace
        rw [habove]
        exact .directory (.inr hdirectory) (isDirectory_delete h hdirectory)
      · refine .same ?_
        rw [hfind, if_neg habove, if_neg hq]
    exact hfirst.trans (hnext.turn q) (Int.le_of_eq hclock.symm) hnext.clock

end

end Disk
end DualImage
