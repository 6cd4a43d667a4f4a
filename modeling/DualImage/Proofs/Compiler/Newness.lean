import DualImage.Proofs.Compiler.Progress

/-! How newness spreads in a build: a source that is newer than its object makes the object new, and
what has a new input is new after the step that makes it. -/
namespace DualImage

namespace Disk
variable {since d d' : Disk} {place : Place} {output p : Path} {inputs : List Path}
  {written : Place → Prop}

/-- No file has a time to come. -/
def Punctual (d : Disk) : Prop :=
  ∀ place e, d.files.find? place = some e → e.isDirectory = false → e.time ≤ d.clock

instance (d : Disk) : Decidable d.Punctual :=
  decidable_of_iff _ (FileTree.forall_find?_iff
    (p := fun _ e => e.isDirectory = false → e.time ≤ d.clock)).symm

/-- The object is there, and its source has changed since it was made. -/
def Outdated (d : Disk) (source object : Path) : Prop :=
  ∃ s o, d.entry source = .ok s ∧ d.entry object = .ok o ∧ s.isDirectory = false ∧
    o.isDirectory = false ∧ o.time < s.time

instance (d : Disk) (source object : Path) : Decidable (d.Outdated source object) :=
  match hs : d.entry source, ho : d.entry object with
  | .ok s, .ok o => decidable_of_iff
      (s.isDirectory = false ∧ o.isDirectory = false ∧ o.time < s.time) (by simp [Outdated, hs, ho])
  | .error f, _ => isFalse (by simp [Outdated, hs])
  | .ok s, .error f => isFalse (by simp [Outdated, ho])

/-- There is a file at the place that is newer than all times of an earlier disk. -/
def HasNew (since d : Disk) (place : Place) : Prop :=
  ∃ e, d.files.find? place = some e ∧ e.isDirectory = false ∧ since.clock < e.time

namespace Advances

theorem hasNew (h : Advances written d d') (hclock : since.clock ≤ d.clock)
    (hnew : HasNew since d place) : HasNew since d' place := by
  obtain ⟨e, he, hfile, hnewer⟩ := hnew
  obtain ⟨e', he', hfile', hcases⟩ := h.file he hfile
  refine ⟨e', he', hfile', ?_⟩
  rcases hcases with rfl | hlater
  · exact hnewer
  · exact Int.lt_of_le_of_lt hclock hlater

/-- New files are where the build may write. -/
theorem written_of_hasNew (h : Advances written d d') (hpunctual : d.Punctual)
    (hnew : HasNew d d' place) : written place := by
  obtain ⟨e, he, hfile, hnewer⟩ := hnew
  cases h.turn place with
  | same hsame => exact absurd (hpunctual place e (hsame.symm.trans he) hfile) (Int.not_le.2 hnewer)
  | directory _ hdir => exact absurd hdir (FileTree.not_isDirectory_of_find? he hfile)
  | renewed _ _ _ _ _ _ hw => exact hw

/-- A path that leads to a file still leads to one, as it was or newer. -/
theorem entry (h : Advances written d d') {e : Entry} (he : d.entry p = .ok e)
    (hfile : e.isDirectory = false) :
    ∃ e', d'.entry p = .ok e' ∧ d'.files.find? (p.place d.here) = some e' ∧
      e'.isDirectory = false ∧ (e' = e ∨ d.clock < e'.time) := by
  obtain ⟨place, hplace, hfind⟩ := entry_eq_ok_iff.1 he
  obtain ⟨e', he', hrest⟩ := h.file hfind hfile
  rw [← eq_place_of_locate hplace]
  exact ⟨e', entry_eq_ok_iff.2 ⟨place, h.locate hplace, he'⟩, he', hrest⟩

/-- An object that is up to date although its source had changed has been made in between. -/
theorem hasNew_of_outdated {source object : Path} (h : Advances written d d')
    (hpunctual : d.Punctual) (hold : d.Outdated source object) (hfresh : d'.Fresh object [source]) :
    HasNew d d' (object.place d.here) := by
  obtain ⟨s, o, hs, ho, hsfile, hofile, hlt⟩ := hold
  obtain ⟨s', hs', -, -, hsource⟩ := h.entry hs hsfile
  obtain ⟨o', ho', hfind, hofile', hobject⟩ := h.entry ho hofile
  refine ⟨o', hfind, hofile', hobject.resolve_left ?_⟩
  rintro rfl
  obtain ⟨o'', ho'', hinputs⟩ := hfresh
  obtain ⟨s'', hs'', hle⟩ := hinputs source (List.mem_singleton_self source)
  rw [ho'] at ho''
  rw [hs'] at hs''
  cases ho''
  cases hs''
  obtain ⟨place, -, hplace⟩ := entry_eq_ok_iff.1 hs
  have hpast := hpunctual place s hplace hsfile
  rcases hsource with rfl | hlater
  · omega
  · omega

end Advances

/-- What is up to date is as new as its inputs. -/
theorem Fresh.hasNew (h : d.Fresh output inputs) (hp : p ∈ inputs)
    (hnew : HasNew since d (p.place d.here)) (hfile : ¬ d.files.IsDirectory (output.place d.here)) :
    HasNew since d (output.place d.here) := by
  obtain ⟨e, he, hinputs⟩ := h
  obtain ⟨i, hi, hle⟩ := hinputs p hp
  obtain ⟨place, hplace, hfind⟩ := entry_eq_ok_iff.1 hi
  obtain ⟨i', hi', -, hlt⟩ := hnew
  rw [← eq_place_of_locate hplace, hfind] at hi'
  cases hi'
  obtain ⟨place', hplace', hfind'⟩ := entry_eq_ok_iff.1 he
  rw [← eq_place_of_locate hplace'] at hfile ⊢
  refine ⟨e, hfind', ?_, Int.lt_of_lt_of_le hlt hle⟩
  rw [FileTree.isDirectory_iff, hfind', Option.any_some] at hfile
  exact Bool.of_not_eq_true hfile

theorem Renewed.hasNew (h : Renewed place d d') (hclock : since.clock ≤ d.clock)
    (hfile : ¬ d'.files.IsDirectory place) : HasNew since d' place := by
  obtain ⟨e, he, htime⟩ := h.entry
  refine ⟨e, he, ?_, ?_⟩
  · rw [FileTree.isDirectory_iff, he, Option.any_some] at hfile
    exact Bool.of_not_eq_true hfile
  · rw [htime, h.clock]
    omega

end Disk

/-- A build with honest tools that began when no file had a time to come, up to now. -/
structure Underway (C : Command → Prop) (since w : World) : Prop where
  honest : since.tools.Honest
  punctual : since.disk.Punctual
  progressed : Progressed C since w

namespace Underway
variable {C C' : Command → Prop} {since w w' : World} {p : Path} {place : Place}

theorem here (h : Underway C since w) : w.disk.here = since.disk.here := h.progressed.disk.here

theorem step (h : Underway C since w) (hstep : Progress C w w') : Progressed C w w' := by
  refine hstep h.progressed.disk.grounded ?_
  rw [h.progressed.tools]
  exact h.honest

theorem next (h : Underway C since w) (hstep : Progress C w w') : Underway C since w' :=
  ⟨h.honest, h.punctual, h.progressed.trans (h.step hstep)⟩

theorem imp (h : Underway C since w) (hC : ∀ c, C c → C' c) : Underway C' since w :=
  ⟨h.honest, h.punctual, h.progressed.imp hC⟩

/-- What is new stays new. -/
theorem hasNew (h : Underway C since w) (hstep : Progress C w w')
    (hnew : since.disk.HasNew w.disk place) : since.disk.HasNew w'.disk place :=
  (h.step hstep).disk.hasNew h.progressed.disk.clock hnew

/-- What is no directory at the end was none before. -/
theorem not_isDirectory (h : Underway C since w) (hstep : Progress C w w')
    (hfile : ¬ w'.disk.files.IsDirectory place) : ¬ w.disk.files.IsDirectory place :=
  fun hdir => hfile ((h.step hstep).disk.isDirectory hdir)

theorem hasNew_of_fresh (h : Underway C since w) {output : Path} {inputs : List Path}
    (hfresh : w.disk.Fresh output inputs) (hp : p ∈ inputs)
    (hnew : since.disk.HasNew w.disk (p.place since.disk.here))
    (hfile : ¬ w.disk.files.IsDirectory (output.place since.disk.here)) :
    since.disk.HasNew w.disk (output.place since.disk.here) := by
  rw [← h.here] at hnew hfile ⊢
  exact hfresh.hasNew hp hnew hfile

/-- A new file has been written by some command, unless it is a record. -/
theorem exists_writes (h : Underway C since w) (hnew : since.disk.HasNew w.disk place)
    (hrecord : ¬ place.IsRecord) :
    World.Ran (fun c => C c ∧ c.Writes since.disk.here place) since w := by
  obtain ⟨new, hcommands, hC, hdisk⟩ := h.progressed.commands
  obtain ⟨c, hc, hwrites⟩ := (hdisk.written_of_hasNew h.punctual hnew).resolve_left hrecord
  exact ⟨new, hcommands, c, hc, hC c hc, hwrites⟩

theorem ran_of_run (h : Underway C since w) {P : Command → Prop} {c : Command}
    {shown : Option String} (hP : P c) (hr : World.run c w = .ok shown w') :
    World.Ran P since w' := by
  obtain ⟨new, hcommands, -, -⟩ := h.progressed.commands
  have hstarted : w'.commands = w.commands ++ [c] := by
    have htools : w.tools.Honest := h.progressed.tools ▸ h.honest
    rcases World.run_eq_ok htools hr with ⟨-, rfl⟩ | ⟨_, _, _, _, -, -, -, -, rfl⟩
    · rfl
    · rfl
  refine ⟨new ++ [c], ?_, c, List.mem_append_right _ (List.mem_singleton_self c), hP⟩
  rw [hstarted, hcommands, List.append_assoc]

private theorem hasNew_of_renewed {c : Command} {shown : Option String} (htools : w.tools.Honest)
    (hmade : ∀ d, w.disk.ensureDirectories p.parent = (.ok (), d) →
      since.disk.clock ≤ d.clock ∧ d.here = since.disk.here)
    (hout : c.output? = some p) (hr : World.run c w = .ok shown w')
    (hfile : ¬ w'.disk.files.IsDirectory (p.place since.disk.here)) :
    since.disk.HasNew w'.disk (p.place since.disk.here) := by
  rcases World.run_eq_ok htools hr with ⟨hnone, -⟩ | ⟨q, d, d', place, hq, hdirs, hplace, hnew, rfl⟩
  · rw [hout] at hnone
    cases hnone
  · obtain rfl := Option.some.inj (hout.symm.trans hq)
    obtain ⟨hclock, hhere⟩ := hmade d hdirs
    rw [← hhere, ← Disk.eq_place_of_locate hplace] at hfile ⊢
    exact hnew.hasNew hclock hfile

/-- A command that succeeds makes its output new. -/
theorem hasNew_of_run (h : Underway C since w) {c : Command} {shown : Option String}
    (hout : c.output? = some p) (hr : World.run c w = .ok shown w')
    (hfile : ¬ w'.disk.files.IsDirectory (p.place since.disk.here)) :
    since.disk.HasNew w'.disk (p.place since.disk.here) := by
  refine hasNew_of_renewed (h.progressed.tools ▸ h.honest) (fun d hd => ?_) hout hr hfile
  have hfirst := Disk.advances_ensureDirectories Place.IsRecord
    h.progressed.disk.grounded p.parent
  rw [hd] at hfirst
  exact ⟨Int.le_trans h.progressed.disk.clock hfirst.clock, hfirst.here.trans h.here⟩

theorem not_isDirectory_of_outdated (h : Underway C since w) {source object : Path}
    (hold : since.disk.Outdated source object) :
    ¬ w.disk.files.IsDirectory (object.place since.disk.here) := by
  obtain ⟨s, o, -, ho, -, hofile, -⟩ := hold
  obtain ⟨o', -, hfind, hofile', -⟩ := h.progressed.disk.entry ho hofile
  exact FileTree.not_isDirectory_of_find? hfind hofile'

section
variable {c : Compiler}

private theorem hasNew_of_compileSource (h : Underway C since w) {package : Package}
    {defines : List Document} {source object : Path}
    (hC : ∀ command, c.compileCommand package defines source object = .ok command →
      C command ∧ command.output? = some object)
    (hold : since.disk.Outdated source object)
    (hr : c.compileSource package defines source object w = .ok () w') :
    since.disk.HasNew w'.disk (object.place since.disk.here) := by
  have hstep := (course_progress C).compileSource (fun command hc => (hC command hc).1) hr
  have hfile := (h.next hstep).not_isDirectory_of_outdated hold
  obtain ⟨stale, w₁, hstale, hrest⟩ := Compiler.compileSource_steps hr
  cases stale with
  | true =>
    obtain ⟨command, w₂, shown, hcommand, hspoken, hrun⟩ := hrest
    have hsteps := (course_progress C).spoken _ _
      (trans_of Spoken (World.isStale_eq_ok hstale) hspoken)
    exact (h.next hsteps).hasNew_of_run (hC command hcommand).2 hrun hfile
  | false =>
    obtain rfl := hrest
    obtain ⟨rfl, hfresh⟩ := World.isStale_eq_false_iff.1 hstale
    exact h.progressed.disk.hasNew_of_outdated h.punctual hold hfresh

/-- Compiling a package makes every object new whose source has changed. -/
theorem hasNew_of_compile (h : Underway C since w) {package : Package} {defines : List Document}
    {objectDir source object : Path} {objects : List Path}
    (hC : ∀ object ∈ objects, ∀ source command,
      c.compileCommand package defines source object = .ok command →
        C command ∧ command.output? = some object)
    (hmem : (source, object) ∈ package.sources.zip objects)
    (hold : since.disk.Outdated source object)
    (hr : c.compile package objectDir defines w = .ok objects w') :
    since.disk.HasNew w'.disk (object.place since.disk.here) := by
  have hcourse := course_progress C
  have hissued : ∀ object ∈ objects, ∀ source command,
      c.compileCommand package defines source object = .ok command → C command :=
    fun o ho s command hcommand => (hC o ho s command hcommand).1
  have hobject := (List.of_mem_zip hmem).2
  obtain ⟨t, t', hbefore, hsource, hafter⟩ := hcourse.source_of_compile hissued hmem hr
  have ht := h.next hbefore
  have ht' := ht.next (hcourse.compileSource (hissued _ hobject _) hsource)
  exact ht'.hasNew hafter (ht.hasNew_of_compileSource (hC _ hobject _) hold hsource)

/-- An archive with a new object is made anew. -/
theorem hasNew_of_archive (h : Underway C since w) {objects : List Path} {object path q : Path}
    (hplain : path.Plain) (hobject : object ∈ objects)
    (hnew : since.disk.HasNew w.disk (object.place since.disk.here))
    (hr : c.archive objects path w = .ok q w')
    (hfile : ¬ w'.disk.files.IsDirectory (path.place since.disk.here)) :
    since.disk.HasNew w'.disk (path.place since.disk.here) := by
  have hcourse := course_progress C
  obtain ⟨-, w₁, stale, w₂, hdirectories, hstale, hrest⟩ := Compiler.archive_steps hr
  have hmade := hcourse.directories _ hdirectories
  have h₁ := h.next hmade
  have hspoken := hcourse.spoken _ _ (World.isStale_eq_ok hstale)
  cases stale with
  | false =>
    obtain rfl := hrest
    obtain ⟨rfl, hfresh⟩ := World.isStale_eq_false_iff.1 hstale
    exact h₁.hasNew_of_fresh hfresh hobject (h.hasNew hmade hnew) hfile
  | true =>
    obtain ⟨w₃, w₄, tool, shown, hdelete, hsay, htool, hrun⟩ := hrest
    have h₂ := h₁.next hspoken
    obtain ⟨before, -, rfl⟩ := Compiler.tool_eq_ok_iff.1 htool
    have hout : Command.output? ((before ++ "ar") :: "rcs" :: path.toText ::
        objects.map Path.toText) = some path := by
      rw [Command.output?_ar]
      exact congrArg some hplain.readBack
    by_cases hthere : (w₂.disk.entry path).isOk = true
    · rw [if_pos hthere] at hdelete
      obtain ⟨d, hgone, rfl⟩ := World.delete_eq_ok hdelete
      obtain ⟨place, -, -, hhere, hclock, -⟩ := Disk.delete_eq_ok hgone
      obtain ⟨console, rfl⟩ := hsay
      refine hasNew_of_renewed (h₂.progressed.tools ▸ h.honest) (fun d' hd' => ?_) hout hrun hfile
      cases (Disk.ensureDirectories_delete hgone h₂.progressed.disk.grounded).symm.trans hd'
      exact ⟨hclock ▸ h₂.progressed.disk.clock, hhere.trans h₂.here⟩
    · rw [if_neg hthere] at hdelete
      rw [hdelete] at hsay
      exact (h₂.next (hcourse.spoken _ _ hsay)).hasNew_of_run hout hrun hfile

/-- A binary is linked anew when one of its archives or symbol files is new. -/
theorem hasNew_of_link (h : Underway C since w) {archives symbolFiles : List Path}
    {script output p q : Path}
    (hC : ∀ command, c.linkCommand archives script output symbolFiles = .ok command →
      C command ∧ command.output? = some output)
    (hp : p ∈ archives ++ symbolFiles)
    (hnew : since.disk.HasNew w.disk (p.place since.disk.here))
    (hr : c.link archives script output symbolFiles w = .ok q w')
    (hfile : ¬ w'.disk.files.IsDirectory (output.place since.disk.here)) :
    since.disk.HasNew w'.disk (output.place since.disk.here) := by
  have hcourse := course_progress C
  obtain ⟨-, w₁, record, command, b, w₂, stale, w₃, hdirectories, hrecord, hcommand, hwrite,
    hstale, hrest⟩ := Compiler.link_steps hr
  have hmade := hcourse.directories _ hdirectories
  have hrecorded := hcourse.record _ _ _ _ (by simp) hrecord hwrite
  have hspoken := hcourse.spoken _ _ (World.isStale_eq_ok hstale)
  have h₁ := h.next hmade
  have h₂ := h₁.next hrecorded
  have hnew₂ := h₁.hasNew hrecorded (h.hasNew hmade hnew)
  cases stale with
  | false =>
    obtain ⟨rfl, hfresh⟩ := World.isStale_eq_false_iff.1 hstale
    have hlast := hcourse.spoken _ _ hrest
    refine h₂.hasNew hlast (h₂.hasNew_of_fresh hfresh ?_ hnew₂ (h₂.not_isDirectory hlast hfile))
    exact List.mem_append_left _ hp
  | true =>
    obtain ⟨w₄, shown, hsay, hrun⟩ := hrest
    have h₃ := (h₂.next hspoken).next (hcourse.spoken _ _ hsay)
    exact h₃.hasNew_of_run (hC command hcommand).2 hrun hfile

end

end Underway
end DualImage
