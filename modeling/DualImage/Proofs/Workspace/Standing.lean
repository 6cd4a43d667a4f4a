import DualImage.Proofs.Workspace.Files

/-! What stays on a disk while steps write elsewhere: directories, files with their times and texts,
and with them outputs that are as new as their inputs and texts that need not be written again. -/
namespace DualImage

private theorem Text.eq_ofChars_of_chars? {codes : List CodePoint} {cs : List Char}
    (h : codes.mapM CodePoint.character? = some cs) : codes = cs.map .character := by
  induction codes generalizing cs with
  | nil =>
    cases h
    rfl
  | cons c rest ih =>
    rw [List.mapM_cons] at h
    obtain ⟨x, hx, h⟩ := Option.bind_eq_some_iff.1 h
    obtain ⟨xs, hxs, h⟩ := Option.bind_eq_some_iff.1 h
    cases h
    cases c with
    | surrogate n => cases hx
    | character c =>
      cases hx
      rw [List.map_cons, ← ih hxs]

theorem Text.eq_ofString_of_string? {t : Text} {s : String} (h : t.string? = some s) :
    t = Text.ofString s := by
  obtain ⟨cs, hcs, rfl⟩ := Option.map_eq_some_iff.1 h
  rw [ofString, String.toList_ofList]
  exact congrArg Text.mk (eq_ofChars_of_chars? hcs)

namespace Disk
variable {d d' d'' : Disk} {p output : Path} {inputs : List Path} {place : Place}
  {S S' : Place → Prop} {time time' : Int} {text : Text}

/-- The path leads to a file of this time. -/
def Dates (d : Disk) (p : Path) (time : Int) : Prop := ∃ text, d.entry p = .ok (.file time text)

/-- The path leads to a file. -/
def HasFile (d : Disk) (p : Path) : Prop := ∃ time, d.Dates p time

instance (d : Disk) (p : Path) : Decidable (d.HasFile p) :=
  match h : d.entry p with
  | .ok (.file time text) => isTrue ⟨time, text, h⟩
  | .ok (.directory time) => isFalse (by
      rintro ⟨_, _, h'⟩
      rw [h] at h'
      cases h')
  | .error fault => isFalse (by
      rintro ⟨_, _, h'⟩
      rw [h] at h'
      cases h')

/-- There is a file at the path, outside of the directory. -/
def Gives (d : Disk) (dir p : Path) : Prop := d.HasFile p ∧ ¬ dir.place d.here <+: p.place d.here

instance (d : Disk) (dir p : Path) : Decidable (d.Gives dir p) := inferInstanceAs (Decidable (_ ∧ _))

/-- The path leads to a file that is no older than this. -/
def AsNew (d : Disk) (p : Path) (time : Int) : Prop := ∃ t, d.Dates p t ∧ time ≤ t

/-- The output is as new as its inputs, and all of them are files. -/
def Current (d : Disk) (output : Path) (inputs : List Path) : Prop :=
  ∃ time, d.Dates output time ∧ ∀ p ∈ inputs, ∃ t, d.Dates p t ∧ t ≤ time

/-- The file holds the text, read with unified line breaks. -/
def Recorded (d : Disk) (p : Path) (text : Text) : Prop :=
  ∃ old, d.read p = .ok old ∧ Text.ofChars (Text.unifyBreaks old.toList) = text

/-- Paths to one place lead to one file. -/
theorem Dates.eq_of_place {q : Path} (h : d.Dates p time) (h' : d.Dates q time')
    (hplace : p.place d.here = q.place d.here) : time = time' := by
  obtain ⟨s, hs⟩ := h
  obtain ⟨s', hs'⟩ := h'
  obtain ⟨place, hlocate, hfind⟩ := entry_eq_ok_iff.1 hs
  obtain ⟨place', hlocate', hfind'⟩ := entry_eq_ok_iff.1 hs'
  rw [eq_place_of_locate hlocate, hplace, ← eq_place_of_locate hlocate', hfind'] at hfind
  cases hfind
  rfl

theorem Dates.unique (h : d.Dates p time) (h' : d.Dates p time') : time = time' :=
  h.eq_of_place h' rfl

theorem hasFile_of_not_isDirectory {e : Entry} (he : d.entry p = .ok e)
    (hfile : ¬ d.files.IsDirectory (p.place d.here)) : d.HasFile p := by
  cases e with
  | file time text => exact ⟨time, text, he⟩
  | directory time =>
    obtain ⟨place, hplace, hfind⟩ := entry_eq_ok_iff.1 he
    exact absurd ⟨time, eq_place_of_locate hplace ▸ hfind⟩ hfile

theorem Fresh.fileAt?_ne_none (h : d.Fresh output inputs)
    (hfile : ¬ d.files.IsDirectory (output.place d.here)) : d.fileAt? output ≠ none := by
  obtain ⟨e, he, -⟩ := h
  obtain ⟨time, text, hp⟩ := hasFile_of_not_isDirectory he hfile
  rw [fileAt?_eq_some_of_entry hp]
  exact Option.some_ne_none _

/-- What a path leads to stands in a directory that the path above leads to. -/
theorem HasFile.hasDirectory_parent (h : d.HasFile p) (hp : p.parts ≠ []) :
    d.hasDirectory p.parent = true := by
  obtain ⟨time, text, he⟩ := h
  obtain ⟨place, hplace, -⟩ := entry_eq_ok_iff.1 he
  obtain ⟨above, habove, hdir, -⟩ := locate_parent hp hplace
  exact hasDirectory_iff.2 ⟨above, habove, hdir⟩

theorem Current.hasFile (h : d.Current output inputs) : ∀ p ∈ output :: inputs, d.HasFile p := by
  obtain ⟨time, houtput, hinputs⟩ := h
  refine List.forall_mem_cons.2 ⟨⟨time, houtput⟩, fun p hp => ?_⟩
  obtain ⟨t, ht, -⟩ := hinputs p hp
  exact ⟨t, ht⟩

theorem Current.fresh (h : d.Current output inputs) : d.Fresh output inputs := by
  obtain ⟨time, ⟨text, houtput⟩, hinputs⟩ := h
  refine ⟨_, houtput, fun p hp => ?_⟩
  obtain ⟨t, ⟨s, hs⟩, hle⟩ := hinputs p hp
  exact ⟨_, hs, hle⟩

theorem Fresh.current (h : d.Fresh output inputs)
    (hfile : ¬ d.files.IsDirectory (output.place d.here)) (hfiles : ∀ p ∈ inputs, d.HasFile p) :
    d.Current output inputs := by
  obtain ⟨e, he, hinputs⟩ := h
  obtain ⟨time, text, houtput⟩ := hasFile_of_not_isDirectory he hfile
  rw [houtput] at he
  cases he
  refine ⟨time, ⟨text, houtput⟩, fun p hp => ?_⟩
  obtain ⟨i, hi, hle⟩ := hinputs p hp
  obtain ⟨t, s, hs⟩ := hfiles p hp
  rw [hs] at hi
  cases hi
  exact ⟨t, ⟨s, hs⟩, hle⟩

/-- A text that is there is not written again. -/
theorem Recorded.writeIfChanged (h : d.Recorded p text) :
    d.writeIfChanged p text = (.ok false, d) := by
  obtain ⟨old, hold, htext⟩ := h
  rw [Disk.writeIfChanged, hold]
  exact if_pos htext

theorem Recorded.hasFile (h : d.Recorded p text) : d.HasFile p := by
  obtain ⟨old, hold, -⟩ := h
  obtain ⟨e, he, htext⟩ := Except.bind_eq_ok_iff.1 hold
  cases e with
  | file time s => exact ⟨time, s, he⟩
  | directory time => cases htext

private theorem entry_of_write {s : String} {time? : Option Int}
    (h : d.write p s time? = .ok d') : ∃ time, d'.entry p = .ok (.file time s) := by
  obtain ⟨place, clock, t, hplace, hfile, rfl⟩ := write_eq_put h
  have hhere : ({ d with clock }.put place (.file t s)).here = d.here := by
    unfold put
    split <;> rfl
  refine ⟨t, entry_eq_ok_iff.2 ⟨place, locate_mono hhere (fun q hq => ?_) hplace, ?_⟩⟩
  · exact isDirectory_put clock (fun hdir => absurd hdir hfile) hq
  · rw [find?_put, if_pos rfl]

/-- A text without carriage returns is there once it has been written, and reads as it was. -/
theorem recorded_of_writeIfChanged {b : Bool} (h : d.writeIfChanged p text = (.ok b, d'))
    (hreturn : .character '\r' ∉ text.codes) : d'.Recorded p text := by
  have hwrite (h : d.overwrite text (d.write p) = (.ok b, d')) : d'.Recorded p text := by
    unfold overwrite at h
    cases hs : text.string? with
    | none =>
      rw [hs] at h
      dsimp only at h
      split at h <;> cases h
    | some s =>
      rw [hs] at h
      dsimp only at h
      split at h
      · next made hmade =>
        cases h
        obtain ⟨time, he⟩ := entry_of_write hmade
        have htext := Text.eq_ofString_of_string? hs
        have hs' : '\r' ∉ s.toList := fun hmem => by
          rw [htext] at hreturn
          exact hreturn (List.mem_map_of_mem hmem)
        refine ⟨s, ?_, ?_⟩
        · rw [read, he]
          rfl
        · rw [Text.unifyBreaks_eq_self hs', htext]
          rfl
      · cases h
  unfold Disk.writeIfChanged replace at h
  split at h
  · next old hold =>
    split at h
    · next hsame =>
      cases h
      exact ⟨old, hold, hsame⟩
    · exact hwrite h
  · exact hwrite h
  · cases h

/-- Writing a text leaves the file as it is, or with the text at the next time of the clock, or empty. -/
theorem fileAt?_writeIfChanged (d : Disk) (p : Path) (text : Text) :
    (d.writeIfChanged p text).2 = d ∨
      (∃ s : String, text = s ∧ (d.writeIfChanged p text).2.fileAt? p = some (d.clock + 1, s)) ∨
      (d.writeIfChanged p text).2.fileAt? p = some (d.systemTime, "") := by
  have hwrite : (d.overwrite text (d.write p)).2 = d ∨
      (∃ s : String, text = s ∧
        (d.overwrite text (d.write p)).2.fileAt? p = some (d.clock + 1, s)) ∨
      (d.overwrite text (d.write p)).2.fileAt? p = some (d.systemTime, "") := by
    unfold overwrite
    cases hs : text.string? with
    | none =>
      dsimp only
      split
      · next hwritten => exact .inr (.inr (fileAt?_write hwritten))
      · exact .inl rfl
    | some s =>
      dsimp only
      split
      · next hwritten =>
        exact .inr (.inl ⟨s, Text.eq_ofString_of_string? hs, fileAt?_write hwritten⟩)
      · exact .inl rfl
  unfold Disk.writeIfChanged replace
  split
  · split
    · exact .inl rfl
    · exact hwrite
  · exact hwrite
  · exact .inl rfl

/-- After a success the file reads as the text and is as it was, or it holds the text and has the next
time of the clock. -/
theorem fileAt?_of_writeIfChanged {b : Bool} (h : d.writeIfChanged p text = (.ok b, d')) :
    ∃ time s, d'.fileAt? p = some (time, s) ∧
      (d' = d ∧ Text.ofChars (Text.unifyBreaks s.toList) = text ∨
        text = Text.ofString s ∧ time = d.clock + 1) := by
  have hwrite (h : d.overwrite text (d.write p) = (.ok b, d')) :
      ∃ time s, d'.fileAt? p = some (time, s) ∧ text = Text.ofString s ∧ time = d.clock + 1 := by
    unfold overwrite at h
    cases hs : text.string? with
    | none =>
      rw [hs] at h
      dsimp only at h
      split at h <;> cases h
    | some s =>
      rw [hs] at h
      dsimp only at h
      split at h
      · next made hmade =>
        cases h
        exact ⟨_, s, fileAt?_write hmade, Text.eq_ofString_of_string? hs, rfl⟩
      · cases h
  unfold Disk.writeIfChanged replace at h
  split at h
  · next old hold =>
    split at h
    · next hsame =>
      cases h
      obtain ⟨e, he, htext⟩ := Except.bind_eq_ok_iff.1 hold
      cases e with
      | directory time => cases htext
      | file time s =>
        cases htext
        exact ⟨time, old, fileAt?_eq_some_of_entry he, .inl ⟨rfl, hsame⟩⟩
    · obtain ⟨time, s, hfile, hnew⟩ := hwrite h
      exact ⟨time, s, hfile, .inr hnew⟩
  · obtain ⟨time, s, hfile, hnew⟩ := hwrite h
    exact ⟨time, s, hfile, .inr hnew⟩
  · cases h

private theorem hasDirectory_of_ensureDirectory (h : d.ensureDirectory p = .ok d') :
    d'.hasDirectory p = true := by
  unfold ensureDirectory at h
  split at h
  · next made hmake =>
    cases h
    obtain ⟨place, hplace, hmake⟩ := Except.bind_eq_ok_iff.1 hmake
    split at hmake
    · cases hmake
    · cases hmake
      have hhere : (d.put place (.directory d.systemTime)).here = d.here := by
        unfold put
        split <;> rfl
      refine hasDirectory_iff.2 ⟨place, locate_mono hhere (fun q hq => ?_) hplace, d.systemTime, ?_⟩
      · exact isDirectory_put d.clock (fun _ => rfl) hq
      · rw [find?_put, if_pos rfl]
  · cases h
  · split at h
    · cases h
      assumption
    · cases h

theorem hasDirectory_of_ensureDirectories (h : d.ensureDirectories p = (.ok (), d')) :
    d'.hasDirectory p = true := by
  unfold ensureDirectories at h
  split at h
  · next hmade =>
    cases h
    exact hasDirectory_of_ensureDirectory hmade
  · split at h
    · cases h
    · split at h
      · split at h
        · next hmade =>
          cases h
          exact hasDirectory_of_ensureDirectory hmade
        · cases h
      · cases h
  · cases h

/-- Directories stay, and so do the files at these places. -/
structure Leaving (S : Place → Prop) (d d' : Disk) : Prop where
  here : d'.here = d.here
  grounded : d'.Grounded
  directory : ∀ place, d.files.IsDirectory place → d'.files.IsDirectory place
  file : ∀ place, S place → d'.files.file? place = d.files.file? place

namespace Leaving

theorem refl (hd : d.Grounded) : Leaving S d d := ⟨rfl, hd, fun _ => id, fun _ _ => rfl⟩

theorem trans (h : Leaving S d d') (h' : Leaving S d' d'') : Leaving S d d'' :=
  ⟨h'.here.trans h.here, h'.grounded, fun place hp => h'.directory place (h.directory place hp),
    fun place hp => (h'.file place hp).trans (h.file place hp)⟩

theorem mono (h : Leaving S d d') (hS : ∀ place, S' place → S place) : Leaving S' d d' :=
  ⟨h.here, h.grounded, h.directory, fun place hp => h.file place (hS place hp)⟩

/-- A step that leaves every other place alone. -/
theorem of_leaves (h : ∀ other, place ≠ other → Leaves other d d') (hS : ¬ S place) :
    Leaving S d d' := by
  have hother : place ≠ place ++ [default] :=
    fun h => absurd (List.self_eq_append_right.1 h) (List.cons_ne_nil _ _)
  obtain ⟨hhere, hgrounded, hdirectory, -⟩ := h _ hother
  refine ⟨hhere, hgrounded, hdirectory, fun other hother => (h other ?_).file⟩
  rintro rfl
  exact hS hother

section
variable (h : Leaving S d d')
include h

theorem hasDirectory (hp : d.hasDirectory p = true) : d'.hasDirectory p = true := by
  obtain ⟨place, hplace, hdir⟩ := hasDirectory_iff.1 hp
  exact hasDirectory_iff.2 ⟨place, locate_mono h.here h.directory hplace, h.directory place hdir⟩

theorem entry {s : String} (hS : S (p.place d.here)) (he : d.entry p = .ok (.file time s)) :
    d'.entry p = .ok (.file time s) := by
  obtain ⟨place, hplace, hfind⟩ := entry_eq_ok_iff.1 he
  have hfile := h.file place (eq_place_of_locate hplace ▸ hS)
  refine entry_eq_ok_iff.2 ⟨place, locate_mono h.here h.directory hplace, ?_⟩
  rw [FileTree.file?, FileTree.file?, hfind, Option.bind_some, Entry.file?] at hfile
  obtain ⟨e, he, hcontents⟩ := Option.bind_eq_some_iff.1 hfile
  rw [he]
  cases e with
  | file t s' =>
    cases hcontents
    rfl
  | directory t => cases hcontents

theorem dates (hS : S (p.place d.here)) (hp : d.Dates p time) : d'.Dates p time := by
  obtain ⟨s, hs⟩ := hp
  exact ⟨s, h.entry hS hs⟩

theorem asNew (hS : S (p.place d.here)) (hp : d.AsNew p time) : d'.AsNew p time := by
  obtain ⟨t, ht, hle⟩ := hp
  exact ⟨t, h.dates hS ht, hle⟩

theorem current (hS : ∀ p ∈ output :: inputs, S (p.place d.here)) (hp : d.Current output inputs) :
    d'.Current output inputs := by
  obtain ⟨houtputS, hinputsS⟩ := List.forall_mem_cons.1 hS
  obtain ⟨time, houtput, hinputs⟩ := hp
  refine ⟨time, h.dates houtputS houtput, fun p hp => ?_⟩
  obtain ⟨t, ht, hle⟩ := hinputs p hp
  exact ⟨t, h.dates (hinputsS p hp) ht, hle⟩

theorem recorded (hS : S (p.place d.here)) (hp : d.Recorded p text) : d'.Recorded p text := by
  obtain ⟨time, s, he⟩ := hp.hasFile
  obtain ⟨old, hold, htext⟩ := hp
  refine ⟨old, ?_, htext⟩
  rw [read, he] at hold
  rw [read, h.entry hS he]
  exact hold

end

end Leaving
end Disk
end DualImage
