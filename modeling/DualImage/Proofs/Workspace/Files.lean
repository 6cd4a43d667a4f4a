import DualImage.Proofs.Workspace.Advance

/-! What a step makes of a single file, whether the step succeeds or not. A step that writes elsewhere
leaves the file alone, and a tool may give it another time but no other text. -/
namespace DualImage

/-- Time and text, of a file only. -/
def Entry.file? : Entry → Option (Int × String)
  | .file time text => some (time, text)
  | .directory _ => none

/-- The file at a place. -/
def FileTree.file? (t : FileTree) (place : Place) : Option (Int × String) :=
  (t.find? place).bind Entry.file?

/-- The text of the file at a place, empty where there is none. -/
def FileTree.textAt (t : FileTree) (place : Place) : String :=
  ((t.file? place).map (·.2)).getD ""

theorem FileTree.file?_of_isDirectory {t : FileTree} {place : Place} (h : t.IsDirectory place) :
    t.file? place = none := by
  obtain ⟨time, htime⟩ := h
  rw [file?, htime]
  rfl

theorem FileTree.file?_ne_none {t : FileTree} {place : Place} (h : t.find? place ≠ none)
    (hfile : ¬ t.IsDirectory place) : t.file? place ≠ none := by
  obtain ⟨e, he⟩ := Option.ne_none_iff_exists'.1 h
  rw [file?, he]
  cases e with
  | file time text => exact Option.some_ne_none _
  | directory time => exact absurd ⟨time, he⟩ hfile

namespace Disk
variable {d d' d'' : Disk} {p : Path} {place q : Place} {e : Entry}

/-- The file that a path leads to. -/
def fileAt? (d : Disk) (p : Path) : Option (Int × String) := d.files.file? (p.place d.here)

/-- Where there is a file, a path that leads anywhere leads to it. -/
theorem eq_file_of_fileAt? {time : Int} {text : String} (h : d.fileAt? p = some (time, text))
    (he : d.entry p = .ok e) : e = .file time text := by
  obtain ⟨place, hplace, hfind⟩ := entry_eq_ok_iff.1 he
  rw [fileAt?, FileTree.file?, ← eq_place_of_locate hplace, hfind] at h
  cases e with
  | file t s =>
    cases h
    rfl
  | directory t => cases h

theorem fileAt?_eq_some_of_entry {time : Int} {text : String}
    (h : d.entry p = .ok (.file time text)) : d.fileAt? p = some (time, text) := by
  obtain ⟨place, hplace, hfind⟩ := entry_eq_ok_iff.1 h
  rw [fileAt?, FileTree.file?, ← eq_place_of_locate hplace, hfind]
  rfl

theorem fileAt?_delete (h : d.delete p = .ok d') : d'.fileAt? p = none := by
  obtain ⟨place, hplace, -, hhere, -, hfind⟩ := delete_eq_ok h
  rw [fileAt?, FileTree.file?, hhere, ← eq_place_of_locate hplace, hfind, if_pos rfl]
  split <;> rfl

/-- Everything still stands in a directory, directories stay, and the file at the place is the
same. -/
structure Leaves (q : Place) (d d' : Disk) : Prop where
  here : d'.here = d.here
  grounded : d'.Grounded
  directory : ∀ place, d.files.IsDirectory place → d'.files.IsDirectory place
  file : d'.files.file? q = d.files.file? q

/-- The same of the text alone. -/
structure LeavesText (q : Place) (d d' : Disk) : Prop where
  here : d'.here = d.here
  grounded : d'.Grounded
  text : d'.files.textAt q = d.files.textAt q

namespace Leaves

theorem refl (hd : d.Grounded) : Leaves q d d := ⟨rfl, hd, fun _ => id, rfl⟩

theorem trans (h : Leaves q d d') (h' : Leaves q d' d'') : Leaves q d d'' :=
  ⟨h'.here.trans h.here, h'.grounded, fun place hp => h'.directory place (h.directory place hp),
    h'.file.trans h.file⟩

theorem fileAt? (h : Leaves (p.place d.here) d d') : d'.fileAt? p = d.fileAt? p := by
  rw [Disk.fileAt?, Disk.fileAt?, h.here]
  exact h.file

theorem leavesText (h : Leaves q d d') : LeavesText q d d' :=
  ⟨h.here, h.grounded, by rw [FileTree.textAt, FileTree.textAt, h.file]⟩

end Leaves

theorem LeavesText.trans (h : LeavesText q d d') (h' : LeavesText q d' d'') :
    LeavesText q d d'' :=
  ⟨h'.here.trans h.here, h'.grounded, h'.text.trans h.text⟩

/-- What a touch puts at a place. -/
private def touched (d : Disk) (place : Place) (t : Int) : Entry :=
  ((d.files.find? place).map (·.stamp t)).getD (.file t "")

private theorem touch_eq_put {time : Option Int} (h : d.touch p time = .ok d') :
    ∃ place clock t, d.locate p = .ok place ∧
      d' = { d with clock }.put place (d.touched place t) := by
  obtain ⟨place, hplace, h⟩ := Except.bind_eq_ok_iff.1 h
  cases h
  cases time with
  | none => exact ⟨place, d.clock + 1, d.clock + 1, hplace, rfl⟩
  | some time => exact ⟨place, d.clock, time, hplace, rfl⟩

theorem write_eq_put {text : String} {time : Option Int} (h : d.write p text time = .ok d') :
    ∃ place clock t, d.locate p = .ok place ∧ ¬ d.files.IsDirectory place ∧
      d' = { d with clock }.put place (.file t text) := by
  obtain ⟨place, hplace, h⟩ := Except.bind_eq_ok_iff.1 h
  rw [writeOn] at h
  cases hdir : (d.files.find? place).any (·.isDirectory) with
  | true =>
    rw [hdir] at h
    cases h
  | false =>
    have hfile : ¬ d.files.IsDirectory place := by
      rw [FileTree.isDirectory_iff, hdir]
      exact Bool.false_ne_true
    rw [hdir] at h
    cases h
    cases time with
    | none => exact ⟨place, d.clock + 1, d.clock + 1, hplace, hfile, rfl⟩
    | some time => exact ⟨place, d.clock, time, hplace, hfile, rfl⟩

/-- A file that is written has the next time of the clock, unless another is given. -/
theorem fileAt?_write {text : String} {time : Option Int} (h : d.write p text time = .ok d') :
    d'.fileAt? p = some (time.getD (d.clock + 1), text) := by
  have hput (d : Disk) (e : Entry) {place : Place} (hplace : place = p.place d.here) :
      (d.put place e).fileAt? p = e.file? := by
    have hhere : (d.put place e).here = d.here := by
      unfold put
      split <;> rfl
    rw [fileAt?, hhere, FileTree.file?, find?_put, if_pos hplace.symm]
    rfl
  obtain ⟨place, hplace, h⟩ := Except.bind_eq_ok_iff.1 h
  have hplace := eq_place_of_locate hplace
  rw [writeOn] at h
  split at h
  · cases h
  · cases h
    cases time with
    | none => exact hput { d with clock := d.clock + 1 } _ hplace
    | some time => exact hput d _ hplace

section
variable (hd : d.Grounded) (hp : d.locate p = .ok place)

include hd hp in
/-- Putting something new at a place changes the file there and no other. -/
private theorem file?_put (clock : Int) (q : Place) :
    ({ d with clock }.put place e).files.file? q =
      if q = place then e.file? else d.files.file? q := by
  have habove := FileTree.file?_of_isDirectory (hd.isDirectory_dropLast hp)
  simp only [FileTree.file?, find?_put] at habove ⊢
  by_cases hq : q = place
  · rw [if_pos hq, if_pos hq]
    rfl
  · rw [if_neg hq, if_neg hq]
    split
    · next h =>
      obtain ⟨time, htime⟩ := hd.isDirectory_dropLast hp
      rw [h.1, htime]
      rfl
    · rfl

theorem isDirectory_put (clock : Int) (he : d.files.IsDirectory place → e.isDirectory = true)
    (hq : d.files.IsDirectory q) :
    ({ d with clock }.put place e).files.IsDirectory q := by
  rw [FileTree.isDirectory_iff, find?_put]
  by_cases hplace : q = place
  · rw [if_pos hplace, Option.any_some]
    exact he (hplace ▸ hq)
  · obtain ⟨time, htime⟩ := hq
    rw [if_neg hplace]
    simp only [htime]
    split <;> rfl

include hd hp

private theorem grounded_put (clock : Int)
    (he : d.files.IsDirectory place → e.isDirectory = true) :
    ({ d with clock }.put place e).Grounded := by
  have hhere : ({ d with clock }.put place e).here = d.here := by
    unfold put
    split <;> rfl
  refine hd.of_new hhere (fun q => isDirectory_put clock he) fun q hq hnone => ?_
  by_cases hplace : q = place
  · exact hplace ▸ hd.isDirectory_dropLast hp
  · rw [find?_put, if_neg hplace, hnone] at hq
    simp at hq

private theorem leaves_put (clock : Int) (he : d.files.IsDirectory place → e.isDirectory = true)
    (hq : q ≠ place) : Leaves q d ({ d with clock }.put place e) where
  here := by
    unfold put
    split <;> rfl
  grounded := grounded_put hd hp clock he
  directory _ := isDirectory_put clock he
  file := by rw [file?_put hd hp, if_neg hq]

end

private theorem isDirectory_touched (t : Int) (h : d.files.IsDirectory place) :
    (d.touched place t).isDirectory = true := by
  obtain ⟨time, htime⟩ := h
  rw [touched, htime]
  rfl

theorem leaves_touch {time : Option Int} (hd : d.Grounded) (h : d.touch p time = .ok d')
    (hq : p.place d.here ≠ q) : Leaves q d d' := by
  obtain ⟨place, clock, t, hplace, rfl⟩ := touch_eq_put h
  exact leaves_put hd hplace clock (isDirectory_touched t) (eq_place_of_locate hplace ▸ hq.symm)

/-- A tool that renews a file keeps its text. A file that it makes is empty. -/
theorem leavesText_touch {time : Option Int} (hd : d.Grounded) (h : d.touch p time = .ok d') :
    LeavesText q d d' := by
  by_cases hq : p.place d.here = q
  · obtain ⟨place, clock, t, hplace, rfl⟩ := touch_eq_put h
    obtain rfl : place = q := (eq_place_of_locate hplace).trans hq
    refine ⟨?_, grounded_put hd hplace clock (isDirectory_touched t), ?_⟩
    · unfold put
      split <;> rfl
    · rw [FileTree.textAt, FileTree.textAt, file?_put hd hplace, if_pos rfl, FileTree.file?,
        touched]
      rcases d.files.find? place with _ | (_ | _) <;> rfl
  · exact (leaves_touch hd h hq).leavesText

theorem leaves_write {text : String} {time : Option Int} (hd : d.Grounded)
    (h : d.write p text time = .ok d') (hq : p.place d.here ≠ q) : Leaves q d d' := by
  obtain ⟨place, clock, t, hplace, hfile, rfl⟩ := write_eq_put h
  exact leaves_put hd hplace clock (fun hdir => absurd hdir hfile)
    (eq_place_of_locate hplace ▸ hq.symm)

theorem leaves_writeIfChanged (hd : d.Grounded) (text : Text) (hq : p.place d.here ≠ q) :
    Leaves q d (d.writeIfChanged p text).2 := by
  have hwrite : Leaves q d (d.overwrite text (d.write p)).2 := by
    unfold overwrite
    cases text.string? <;> dsimp only <;> split
    all_goals
      first
      | exact .refl hd
      | next h => exact leaves_write hd h hq
  unfold writeIfChanged replace
  split
  · split
    · exact .refl hd
    · exact hwrite
  · exact hwrite
  · exact .refl hd

theorem leaves_delete (hd : d.Grounded) (h : d.delete p = .ok d') (hq : p.place d.here ≠ q) :
    Leaves q d d' := by
  obtain ⟨place, hplace, -, hhere, -, hfind⟩ := delete_eq_ok h
  refine ⟨hhere, grounded_delete h hd, fun _ => isDirectory_delete h, ?_⟩
  have hne : q ≠ place := eq_place_of_locate hplace ▸ hq.symm
  rw [FileTree.file?, FileTree.file?, hfind, if_neg hne]
  split
  · next habove =>
    obtain ⟨time, htime⟩ := hd.isDirectory_dropLast hplace
    rw [habove, htime]
    rfl
  · rfl

theorem leaves_ensureDirectories (hd : d.Grounded) (p : Path) (q : Place) :
    Leaves q d (d.ensureDirectories p).2 := by
  have hadvances := advances_ensureDirectories (fun _ => False) hd p
  refine ⟨hadvances.here, hadvances.grounded, fun _ => hadvances.isDirectory, ?_⟩
  cases hadvances.turn q with
  | same h => rw [FileTree.file?, FileTree.file?, h]
  | directory h h' =>
    rw [FileTree.file?_of_isDirectory h']
    rcases h with hnone | hdir
    · rw [FileTree.file?, hnone]
      rfl
    · exact (FileTree.file?_of_isDirectory hdir).symm
  | renewed _ _ _ _ _ _ hw => exact hw.elim

end Disk
end DualImage
