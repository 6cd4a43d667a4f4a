import DualImage.Proofs.Path
import DualImage.Proofs.Workspace.Action
import DualImage.Proofs.Workspace.FileName

/-! What a step on the disk leaves as it was. Directories stay directories, and beside the place that
a path leads to only the time of the directory around it can change. -/
namespace DualImage

namespace FileTree
variable {t t' : FileTree} {start place next : Place} {part : Text} {parts : List Text}

/-- There is a directory at the place. -/
def IsDirectory (t : FileTree) (place : Place) : Prop :=
  ∃ time, t.find? place = some (.directory time)

theorem isDirectory_iff : t.IsDirectory place ↔ (t.find? place).any (·.isDirectory) = true := by
  unfold IsDirectory
  cases t.find? place with
  | none => simp
  | some e => cases e <;> simp [Entry.isDirectory]

instance (t : FileTree) (place : Place) : Decidable (t.IsDirectory place) :=
  decidable_of_iff _ isDirectory_iff.symm

/-- What holds of every place that is taken holds of those that the entries name. -/
theorem forall_find?_iff {p : Place → Entry → Prop} :
    (∀ place e, t.find? place = some e → p place e) ↔
      ∀ x ∈ t.entries, ∀ e ∈ t.find? x.1, p x.1 e := by
  constructor
  · exact fun h x _ e he => h x.1 e he
  · intro h place e he
    obtain ⟨x, hx, rfl⟩ := Option.map_eq_some_iff.1 he
    obtain rfl : x.1 = place := by simpa using List.find?_some hx
    exact h x (List.mem_of_find?_eq_some hx) x.2 he

theorem eq_enter_of_step (h : step start part = .ok next) : next = Path.enter start part := by
  unfold step at h
  unfold Path.enter
  split
  · next hdot =>
    rw [if_pos hdot] at h
    cases h
    rfl
  · next hdot =>
    rw [if_neg hdot] at h
    split
    · next hdots =>
      rw [if_pos hdots] at h
      cases h
      rfl
    · next hdots =>
      rw [if_neg hdots] at h
      split at h
      · cases h
      · cases h
        rfl

theorem step_of_ne (hdot : part ≠ ".") (hdots : part ≠ "..") (h : step start part = .ok next) :
    next = start ++ [FileName.canonical part] := by
  rw [eq_enter_of_step h, Path.enter, if_neg hdot, if_neg hdots]

theorem locate_cons_eq_ok_iff :
    t.locate start (part :: parts) = .ok place ↔
      t.IsDirectory start ∧ ∃ next, step start part = .ok next ∧
        t.locate next parts = .ok place := by
  rw [locate, IsDirectory]
  cases t.find? start with
  | none => simp [throw, throwThe, MonadExceptOf.throw]
  | some e =>
    cases e with
    | file time text => simp [throw, throwThe, MonadExceptOf.throw]
    | directory time => cases step start part <;> simp [bind, Except.bind]

/-- More directories keep every path that leads somewhere. -/
theorem locate_mono (hdir : ∀ q, t.IsDirectory q → t'.IsDirectory q)
    (h : t.locate start parts = .ok place) : t'.locate start parts = .ok place := by
  induction parts generalizing start with
  | nil => exact h
  | cons part rest ih =>
    obtain ⟨hstart, next, hstep, hrest⟩ := locate_cons_eq_ok_iff.1 h
    exact locate_cons_eq_ok_iff.2 ⟨hdir _ hstart, next, hstep, ih hrest⟩

/-- Where a path leads depends on the files only as far as it leads anywhere. -/
theorem eq_foldl_of_locate (h : t.locate start parts = .ok place) :
    place = parts.foldl Path.enter start := by
  induction parts generalizing start with
  | nil =>
    cases h
    rfl
  | cons part rest ih =>
    obtain ⟨-, next, hstep, hrest⟩ := locate_cons_eq_ok_iff.1 h
    rw [List.foldl_cons, ← eq_enter_of_step hstep]
    exact ih hrest

theorem locate_concat_eq_ok_iff :
    t.locate start (parts ++ [part]) = .ok place ↔
      ∃ above, t.locate start parts = .ok above ∧ t.IsDirectory above ∧
        step above part = .ok place := by
  induction parts generalizing start with
  | nil =>
    rw [List.nil_append, locate_cons_eq_ok_iff]
    simp [locate, pure, Except.pure]
  | cons first rest ih =>
    rw [List.cons_append, locate_cons_eq_ok_iff]
    simp only [ih, locate_cons_eq_ok_iff]
    constructor
    · rintro ⟨hstart, next, hstep, above, habove, hdir, hlast⟩
      exact ⟨above, ⟨hstart, next, hstep, habove⟩, hdir, hlast⟩
    · rintro ⟨above, ⟨hstart, next, hstep, habove⟩, hdir, hlast⟩
      exact ⟨hstart, next, hstep, above, habove, hdir, hlast⟩

end FileTree

namespace Disk
variable {d d' : Disk} {p : Path} {place : Place} {e : Entry}

theorem checkWritten_eq_ok_iff {t : Text} :
    checkWritten t = .ok () ↔ FileName.isUsable t = true ∧ FileName.size t ≤ longestPath := by
  unfold checkWritten
  cases FileName.isUsable t with
  | false => simp [throw, throwThe, MonadExceptOf.throw]
  | true =>
    by_cases h : longestPath < FileName.size t
    · simp [h, throw, throwThe, MonadExceptOf.throw]
    · simp [h, pure, Except.pure, Nat.le_of_not_lt h]

theorem checkWritten_of_append {front tail : Text} (h : checkWritten (front ++ tail) = .ok ()) :
    checkWritten front = .ok () := by
  rw [checkWritten_eq_ok_iff, FileName.isUsable, FileName.size, FileName.bytes?_append] at h
  rw [checkWritten_eq_ok_iff, FileName.isUsable, FileName.size]
  cases hf : FileName.bytes? front with
  | none => simp [hf] at h
  | some bytes =>
    cases ht : FileName.bytes? tail with
    | none => simp [hf, ht] at h
    | some more =>
      simp only [hf, ht, Text.codes_append] at h
      simp at h ⊢
      exact ⟨h.1.1, by omega⟩

theorem checkWritten_parent (h : checkWritten p.toText = .ok ()) :
    checkWritten p.parent.toText = .ok () := by
  rcases p.toText_parent with hdot | ⟨tail, htail⟩
  · rw [hdot]
    rfl
  · rw [htail] at h
    exact checkWritten_of_append h

theorem locate_eq_ok_iff :
    d.locate p = .ok place ↔ checkWritten p.toText = .ok () ∧
      d.files.locate (if p.isAbsolute then [] else d.here) p.parts = .ok place := by
  unfold locate
  cases checkWritten p.toText <;> simp [bind, Except.bind]

theorem eq_place_of_locate (h : d.locate p = .ok place) : place = p.place d.here :=
  FileTree.eq_foldl_of_locate (locate_eq_ok_iff.1 h).2

/-- More directories keep every path that leads somewhere. -/
theorem locate_mono (hhere : d'.here = d.here)
    (hdir : ∀ q, d.files.IsDirectory q → d'.files.IsDirectory q) (h : d.locate p = .ok place) :
    d'.locate p = .ok place := by
  obtain ⟨hwritten, hlocate⟩ := locate_eq_ok_iff.1 h
  rw [locate_eq_ok_iff, hhere]
  exact ⟨hwritten, FileTree.locate_mono hdir hlocate⟩

theorem entry_eq_ok_iff :
    d.entry p = .ok e ↔ ∃ place, d.locate p = .ok place ∧ d.files.find? place = some e := by
  unfold entry
  cases d.locate p with
  | error fault => simp [bind, Except.bind]
  | ok place =>
    simp only [bind, Except.bind, entryOn]
    cases hfind : d.files.find? place <;>
      simp [hfind, pure, Except.pure, throw, throwThe, MonadExceptOf.throw]

theorem hasDirectory_iff :
    d.hasDirectory p = true ↔ ∃ place, d.locate p = .ok place ∧ d.files.IsDirectory place := by
  have hentry : d.hasDirectory p = true ↔ ∃ e, d.entry p = .ok e ∧ e.isDirectory = true := by
    unfold hasDirectory
    cases d.entry p <;> simp
  rw [hentry]
  constructor
  · rintro ⟨e, he, hdir⟩
    obtain ⟨place, hplace, hfind⟩ := entry_eq_ok_iff.1 he
    cases e with
    | file time text => cases hdir
    | directory time => exact ⟨place, hplace, time, hfind⟩
  · rintro ⟨place, hplace, time, hfind⟩
    exact ⟨.directory time, entry_eq_ok_iff.2 ⟨place, hplace, hfind⟩, rfl⟩

/-- A name that a path leads to stands in a directory that the path above leads to. -/
theorem locate_parent (hp : p.parts ≠ []) (h : d.locate p = .ok place) :
    ∃ above, d.locate p.parent = .ok above ∧ d.files.IsDirectory above ∧
      FileTree.step above p.name = .ok place := by
  obtain ⟨hwritten, hlocate⟩ := locate_eq_ok_iff.1 h
  have hname : p.name = p.parts.getLast hp := by
    rw [Path.name, List.getLast?_eq_some_getLast hp, Option.getD_some]
  rw [← List.dropLast_concat_getLast hp, FileTree.locate_concat_eq_ok_iff, ← hname] at hlocate
  obtain ⟨above, habove, hdir, hstep⟩ := hlocate
  exact ⟨above, locate_eq_ok_iff.2 ⟨checkWritten_parent hwritten, habove⟩, hdir, hstep⟩

theorem ensureDirectories_of_hasDirectory (h : d.hasDirectory p = true) :
    d.ensureDirectories p = (.ok (), d) := by
  obtain ⟨place, hplace, time, hfind⟩ := hasDirectory_iff.1 h
  have hmake : d.makeDirectory p = .error .occupied := by
    rw [makeDirectory, hplace]
    simp only [bind, Except.bind, hfind]
    rfl
  have hensure : d.ensureDirectory p = .ok d := by
    rw [ensureDirectory, hmake]
    exact if_pos h
  rw [ensureDirectories, hensure]

theorem find?_put (d : Disk) (place q : Place) (e : Entry) :
    (d.put place e).files.find? q =
      if q = place then some e
      else if q = place.dropLast ∧ d.files.find? place = none then
        (d.files.find? q).map (·.stamp d.systemTime)
      else d.files.find? q := by
  unfold put
  simp only [FileTree.find?_put]
  by_cases hq : q = place
  · rw [if_pos hq, if_pos hq]
  · rw [if_neg hq, if_neg hq]
    cases hfind : d.files.find? place with
    | none =>
      simp only [Option.isSome_none, Bool.false_eq_true, if_false, renewDirectory,
        FileTree.find?_stamp, and_true]
    | some old => simp

/-- One place was given what it holds now, at the next tick of the clock. -/
structure Renewed (place : Place) (d d' : Disk) : Prop where
  clock : d'.clock = d.clock + 1
  systemTime : d'.systemTime = d.systemTime
  here : d'.here = d.here
  entry : ∃ e, d'.files.find? place = some e ∧ e.time = d'.clock
  directory : ∀ q, d'.files.IsDirectory q ↔ d.files.IsDirectory q
  others : ∀ q, q ≠ place → d'.files.find? q = d.files.find? q ∨
    d'.files.find? q = (d.files.find? q).map (·.stamp d.systemTime) ∧ q = place.dropLast ∧
      d.files.find? place = none

private theorem isDirectory_stamp (e : Entry) (time : Int) :
    (e.stamp time).isDirectory = e.isDirectory := by
  cases e <;> rfl

private theorem any_stamp (e? : Option Entry) (time : Int) :
    (e?.map (·.stamp time)).any (·.isDirectory) = e?.any (·.isDirectory) := by
  cases e? with
  | none => rfl
  | some e => exact isDirectory_stamp e time

private theorem renewed_put (htime : e.time = d.clock + 1)
    (hdir : e.isDirectory = (d.files.find? place).any (·.isDirectory)) :
    Renewed place d ({ d with clock := d.clock + 1 }.put place e) where
  clock := by unfold put; split <;> rfl
  systemTime := by unfold put; split <;> rfl
  here := by unfold put; split <;> rfl
  entry := by
    refine ⟨e, ?_, ?_⟩
    · rw [find?_put, if_pos rfl]
    · rw [htime]
      unfold put
      split <;> rfl
  directory q := by
    rw [FileTree.isDirectory_iff, FileTree.isDirectory_iff, find?_put]
    split
    · next hq => rw [hq, ← hdir, Option.any_some]
    · split
      · rw [any_stamp]
      · rfl
  others q hq := by
    rw [find?_put, if_neg hq]
    split
    · next h => exact .inr ⟨rfl, h⟩
    · exact .inl rfl

theorem write_eq_ok {text : String} (h : d.write p text none = .ok d') :
    ∃ place, d.locate p = .ok place ∧ ¬ d.files.IsDirectory place ∧ Renewed place d d' := by
  unfold write at h
  obtain ⟨place, hplace, h⟩ := Except.bind_eq_ok_iff.1 h
  refine ⟨place, hplace, ?_⟩
  rw [writeOn] at h
  cases hdir : (d.files.find? place).any (·.isDirectory) with
  | true =>
    rw [hdir] at h
    cases h
  | false =>
    rw [hdir] at h
    cases h
    refine ⟨?_, renewed_put rfl hdir.symm⟩
    rw [FileTree.isDirectory_iff, hdir]
    exact Bool.false_ne_true

theorem touch_eq_ok (h : d.touch p none = .ok d') :
    ∃ place, d.locate p = .ok place ∧ Renewed place d d' := by
  unfold touch at h
  obtain ⟨place, hplace, h⟩ := Except.bind_eq_ok_iff.1 h
  refine ⟨place, hplace, ?_⟩
  cases h
  simp only
  cases hfind : d.files.find? place with
  | none => exact renewed_put rfl (by simp [hfind, Entry.isDirectory])
  | some old =>
    refine renewed_put ?_ ?_
    · cases old <;> rfl
    · rw [hfind]
      exact isDirectory_stamp old _

section
variable {q : Place} (hr : Renewed place d d')
include hr

theorem Renewed.find?_eq (hne : q ≠ place)
    (hkeep : q ≠ place.dropLast ∨ d.files.find? place ≠ none) :
    d'.files.find? q = d.files.find? q :=
  (hr.others q hne).resolve_right fun ⟨_, habove, hnone⟩ =>
    hkeep.elim (fun h => h habove) (fun h => h hnone)

theorem Renewed.entry_iff
    (hsame : d'.files.find? (p.place d.here) = d.files.find? (p.place d.here)) :
    d'.entry p = .ok e ↔ d.entry p = .ok e := by
  constructor
  · intro he
    obtain ⟨q, hq, hfind⟩ := entry_eq_ok_iff.1 he
    have hold := locate_mono hr.here.symm (fun q => (hr.directory q).1) hq
    rw [eq_place_of_locate hold, hsame] at hfind
    exact entry_eq_ok_iff.2 ⟨q, hold, by rw [eq_place_of_locate hold, hfind]⟩
  · intro he
    obtain ⟨q, hq, hfind⟩ := entry_eq_ok_iff.1 he
    rw [eq_place_of_locate hq, ← hsame] at hfind
    exact entry_eq_ok_iff.2 ⟨q, locate_mono hr.here (fun q => (hr.directory q).2) hq,
      by rw [eq_place_of_locate hq, hfind]⟩

theorem Renewed.entry_of_locate (hp : d.locate p = .ok place) :
    ∃ e, d'.entry p = .ok e ∧ e.time = d'.clock := by
  obtain ⟨e, he, htime⟩ := hr.entry
  exact ⟨e, entry_eq_ok_iff.2 ⟨place, locate_mono hr.here (fun q => (hr.directory q).2) hp, he⟩,
    htime⟩

end

end Disk
end DualImage
