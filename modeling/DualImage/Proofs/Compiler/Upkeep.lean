import DualImage.Proofs.Compiler.Leaving
import DualImage.Proofs.Compiler.Newness

/-! Steps that succeed leave what they make as new as what they make it of, and later steps make it
newer at most. -/
namespace DualImage

namespace Disk
variable {d d' : Disk} {written : Place → Prop} {p output : Path} {inputs : List Path} {time : Int}

theorem Punctual.dates_le (hd : d.Punctual) (hp : d.Dates p time) : time ≤ d.clock := by
  obtain ⟨text, he⟩ := hp
  obtain ⟨place, -, hfind⟩ := entry_eq_ok_iff.1 he
  exact hd place _ hfind rfl

theorem Punctual.fileAt?_le {text : String} (hd : d.Punctual)
    (hp : d.fileAt? p = some (time, text)) : time ≤ d.clock := by
  obtain ⟨e, he, hfile⟩ := Option.bind_eq_some_iff.1 hp
  cases e with
  | directory t => cases hfile
  | file t s =>
    cases hfile
    exact hd _ _ he rfl

/-- What has just been made is as new as any file. -/
theorem Punctual.current (hd : d.Punctual) (houtput : d.Dates output d.clock)
    (hinputs : ∀ p ∈ inputs, d.HasFile p) : d.Current output inputs := by
  refine ⟨d.clock, houtput, fun p hp => ?_⟩
  obtain ⟨t, ht⟩ := hinputs p hp
  exact ⟨t, ht, hd.dates_le ht⟩

namespace Advances
variable (h : Advances written d d')
include h

theorem punctual (hd : d.Punctual) : d'.Punctual := by
  intro place e he hfile
  cases h.turn place with
  | same hsame => exact Int.le_trans (hd place e (hsame ▸ he) hfile) h.clock
  | directory _ hdir => exact absurd hdir (FileTree.not_isDirectory_of_find? he hfile)
  | renewed e' _ he' _ _ past =>
    rw [he'] at he
    cases he
    exact past

/-- A file stays as it is or gets newer. -/
theorem dates (hp : d.Dates p time) :
    ∃ t, d'.Dates p t ∧ (t = time ∨ d.clock < t) := by
  obtain ⟨text, he⟩ := hp
  obtain ⟨e', he', -, hfile, hcases⟩ := h.entry he rfl
  cases e' with
  | directory t => cases hfile
  | file t text' =>
    refine ⟨t, ⟨text', he'⟩, hcases.imp_left fun hsame => ?_⟩
    cases hsame
    rfl

theorem dates_of_not_written (hp : d.Dates p time) (hw : ¬ written (p.place d.here)) :
    d'.Dates p time := by
  obtain ⟨text, he⟩ := hp
  obtain ⟨place, hplace, hfind⟩ := entry_eq_ok_iff.1 he
  refine ⟨text, entry_eq_ok_iff.2 ⟨place, h.locate hplace, ?_⟩⟩
  rw [← eq_place_of_locate hplace] at hw
  cases h.turn place with
  | same hsame => exact hsame.trans hfind
  | directory hbefore =>
    rcases hbefore with hnone | hdir
    · rw [hfind] at hnone
      cases hnone
    · exact absurd hdir (FileTree.not_isDirectory_of_find? hfind rfl)
  | renewed _ _ _ _ _ _ hwritten => exact absurd hwritten hw

theorem hasFile (hp : d.HasFile p) : d'.HasFile p := by
  obtain ⟨time, htime⟩ := hp
  obtain ⟨t, ht, -⟩ := h.dates htime
  exact ⟨t, ht⟩

theorem asNew (hp : d.AsNew p time) (hclock : time ≤ d.clock) : d'.AsNew p time := by
  obtain ⟨t, ht, hle⟩ := hp
  obtain ⟨t', ht', hcases⟩ := h.dates ht
  refine ⟨t', ht', ?_⟩
  rcases hcases with rfl | hlater
  · exact hle
  · exact Int.le_trans hclock (Int.le_of_lt hlater)

theorem hasDirectory (hp : d.hasDirectory p = true) : d'.hasDirectory p = true := by
  obtain ⟨place, hplace, hdir⟩ := hasDirectory_iff.1 hp
  exact hasDirectory_iff.2 ⟨place, h.locate hplace, h.isDirectory hdir⟩

/-- An output stays as new as its inputs when it is made anew after those of them that change. -/
theorem current (hd : d.Punctual) (hp : d.Current output inputs)
    (hinputs : ∀ p ∈ inputs, written (p.place d.here) →
      ∃ t, d'.Dates p t ∧ ∀ time, d'.Dates output time → t ≤ time) :
    d'.Current output inputs := by
  obtain ⟨time, houtput, hold⟩ := hp
  obtain ⟨time', houtput', hcases⟩ := h.dates houtput
  refine ⟨time', houtput', fun p hp => ?_⟩
  by_cases hwritten : written (p.place d.here)
  · obtain ⟨t, ht, hle⟩ := hinputs p hp hwritten
    exact ⟨t, ht, hle time' houtput'⟩
  · obtain ⟨t, ht, hle⟩ := hold p hp
    refine ⟨t, h.dates_of_not_written ht hwritten, ?_⟩
    rcases hcases with rfl | hlater
    · exact hle
    · exact Int.le_trans (hd.dates_le ht) (Int.le_of_lt hlater)

end Advances

end Disk

theorem World.hasDirectory_of_ensureDirectories {p : Path} {w w' : World}
    (hr : World.ensureDirectories p w = .ok () w') : w'.disk.hasDirectory p = true := by
  obtain ⟨d, hmade, rfl⟩ := World.attempt_eq_ok hr
  exact Disk.hasDirectory_of_ensureDirectories hmade

/-- What a command has made has the time of the clock. -/
theorem World.dates_of_run {w w' : World} {c : Command} {p : Path} {shown : Option String}
    (htools : w.tools.Honest) (hout : c.output? = some p) (hr : World.run c w = .ok shown w')
    (hfile : ¬ w'.disk.files.IsDirectory (p.place w'.disk.here)) :
    w'.disk.Dates p w'.disk.clock := by
  rcases World.run_eq_ok htools hr with ⟨hnone, -⟩ | ⟨q, d, d', place, hq, -, hplace, hnew, rfl⟩
  · rw [hout] at hnone
    cases hnone
  · obtain rfl := Option.some.inj (hout.symm.trans hq)
    have hplace' := Disk.locate_mono hnew.here (fun q => (hnew.directory q).2) hplace
    obtain ⟨e, he, htime⟩ := hnew.entry
    rw [← Disk.eq_place_of_locate hplace', FileTree.isDirectory_iff] at hfile
    dsimp only at hfile
    rw [he, Option.any_some] at hfile
    cases e with
    | directory t => exact absurd rfl hfile
    | file t text =>
      obtain rfl : t = d'.clock := htime
      exact ⟨text, Disk.entry_eq_ok_iff.2 ⟨place, hplace', he⟩⟩

namespace Underway
variable {C : Command → Prop} {since w w' : World} {time : Int}

theorem punctual_now (h : Underway C since w) : w.disk.Punctual :=
  h.progressed.disk.punctual h.punctual

theorem honest_now (h : Underway C since w) : w.tools.Honest :=
  h.progressed.tools ▸ h.honest

/-- Files of the beginning are there, and no older. -/
theorem asNew (h : Underway C since w) {p : Path} (hp : since.disk.Dates p time) :
    w.disk.AsNew p time :=
  h.progressed.disk.asNew ⟨time, hp, Int.le_refl _⟩ (h.punctual.dates_le hp)

/-- What a command makes is as new as all that is there. -/
theorem current_of_run (h : Underway C since w) {c : Command} {p : Path} {inputs : List Path}
    {shown : Option String} (hC : C c) (hout : c.output? = some p)
    (hr : World.run c w = .ok shown w') (hinputs : ∀ q ∈ inputs, w.disk.HasFile q)
    (hfile : ¬ w'.disk.files.IsDirectory (p.place since.disk.here)) :
    w'.disk.Current p inputs := by
  have hstep := (course_progress C).run c hC hr
  have hw' := h.next hstep
  refine hw'.punctual_now.current (World.dates_of_run h.honest_now hout hr ?_) fun q hq => ?_
  · rw [hw'.here]
    exact hfile
  · exact (h.step hstep).disk.hasFile (hinputs q hq)

/-- A command that writes elsewhere leaves a record as it is. -/
private theorem recorded_of_run (h : Underway C since w) {c : Command} {p record : Path}
    {shown : Option String} {text : Text} (hout : c.output? = some p)
    (happart : p.place since.disk.here ≠ record.place since.disk.here)
    (hr : World.run c w = .ok shown w') (hrecorded : w.disk.Recorded record text) :
    w'.disk.Recorded record text := by
  have havoids : c.Avoids since.disk.here (· = record.place since.disk.here) := by
    intro q hq
    obtain rfl := Option.some.inj (hout.symm.trans hq)
    exact happart
  refine (((World.conduct_leaving since.disk.here _).run c havoids).ok hr
    h.progressed.disk.grounded h.here).recorded ?_ hrecorded
  rw [h.here]

section
variable {c : Compiler}

/-- After its compilation an object is no older than its source was at the beginning. -/
private theorem asNew_of_compileSource (h : Underway C since w) {package : Package}
    {defines : List Document} {source object : Path}
    (hC : ∀ command, c.compileCommand package defines source object = .ok command →
      C command ∧ command.output? = some object)
    (hsource : since.disk.Dates source time)
    (hr : c.compileSource package defines source object w = .ok () w')
    (hfile : ¬ w'.disk.files.IsDirectory (object.place since.disk.here)) :
    w'.disk.AsNew object time := by
  obtain ⟨stale, w₁, hstale, hrest⟩ := Compiler.compileSource_steps hr
  cases stale with
  | true =>
    obtain ⟨command, w₂, shown, hcommand, hspoken, hrun⟩ := hrest
    obtain ⟨hcC, hout⟩ := hC command hcommand
    have h₂ := h.next ((course_progress C).spoken _ _
      (trans_of Spoken (World.isStale_eq_ok hstale) hspoken))
    have hw' := h₂.next ((course_progress C).run command hcC hrun)
    refine ⟨w'.disk.clock, World.dates_of_run h₂.honest_now hout hrun (hw'.here ▸ hfile), ?_⟩
    exact Int.le_trans (h.punctual.dates_le hsource) hw'.progressed.disk.clock
  | false =>
    obtain rfl := hrest
    obtain ⟨rfl, e, he, hinputs⟩ := World.isStale_eq_false_iff.1 hstale
    obtain ⟨i, hi, hle⟩ := hinputs source (List.mem_singleton_self source)
    obtain ⟨t, ⟨text, ht⟩, hsince⟩ := h.asNew hsource
    obtain ⟨t', text', he'⟩ := Disk.hasFile_of_not_isDirectory he (h.here ▸ hfile)
    rw [ht] at hi
    cases hi
    rw [he'] at he
    cases he
    exact ⟨t', ⟨text', he'⟩, Int.le_trans hsince hle⟩

/-- After the compilation of a package every object is no older than its source was. -/
theorem asNew_of_compile (h : Underway C since w) {package : Package} {defines : List Document}
    {objectDir source object : Path} {objects : List Path}
    (hC : ∀ object ∈ objects, ∀ source command,
      c.compileCommand package defines source object = .ok command →
        C command ∧ command.output? = some object)
    (hmem : (source, object) ∈ package.sources.zip objects)
    (hsource : since.disk.Dates source time)
    (hr : c.compile package objectDir defines w = .ok objects w')
    (hfile : ¬ w'.disk.files.IsDirectory (object.place since.disk.here)) :
    w'.disk.AsNew object time := by
  have hcourse := course_progress C
  have hissued : ∀ object ∈ objects, ∀ source command,
      c.compileCommand package defines source object = .ok command → C command :=
    fun o ho s command hcommand => (hC o ho s command hcommand).1
  have hobject := (List.of_mem_zip hmem).2
  obtain ⟨t, t', hbefore, hone, hafter⟩ := hcourse.source_of_compile hissued hmem hr
  have ht := h.next hbefore
  have ht' := ht.next (hcourse.compileSource (hissued _ hobject _) hone)
  have hmade := ht.asNew_of_compileSource (hC _ hobject source) hsource hone
    (ht'.not_isDirectory hafter hfile)
  refine (ht'.step hafter).disk.asNew hmade ?_
  exact Int.le_trans (h.punctual.dates_le hsource) ht'.progressed.disk.clock

/-- After the compilation of a package there is a directory for its objects. -/
theorem hasDirectory_of_compile (h : Underway C since w) {package : Package}
    {defines : List Document} {objectDir : Path} {objects : List Path}
    (hC : ∀ object ∈ objects, ∀ source command,
      c.compileCommand package defines source object = .ok command → C command)
    (hr : c.compile package objectDir defines w = .ok objects w') :
    w'.disk.hasDirectory objectDir = true := by
  obtain ⟨-, w₁, hdirectories, hcompile⟩ := Compiler.compile_steps hr
  have h₁ := h.next ((course_progress C).directories _ hdirectories)
  have hcompiled := (course_progress C).compileSources
    (fun pair hpair => hC pair.2 (List.of_mem_zip hpair).2 pair.1) hcompile
  exact (h₁.step hcompiled).disk.hasDirectory
    (World.hasDirectory_of_ensureDirectories hdirectories)

/-- After its archiving a package has an archive as new as its objects. -/
theorem current_of_archive (h : Underway C since w) {objects : List Path} {path q : Path}
    (hplain : path.Plain)
    (hC : ∀ tool, c.tool "ar" = .ok tool →
      C (tool :: "rcs" :: path.toText :: objects.map Path.toText))
    (hobjects : ∀ o ∈ objects, w.disk.HasFile o)
    (hr : c.archive objects path w = .ok q w')
    (hfile : ¬ w'.disk.files.IsDirectory (path.place since.disk.here)) :
    w'.disk.Current path objects := by
  have hcourse := course_progress C
  have hstep := hcourse.archive c objects path hplain hC hr
  have hw' := h.next hstep
  obtain ⟨-, w₁, stale, w₂, hdirectories, hstale, hrest⟩ := Compiler.archive_steps hr
  have hfiles : ∀ o ∈ objects, w'.disk.HasFile o :=
    fun o ho => (h.step hstep).disk.hasFile (hobjects o ho)
  rw [← hw'.here] at hfile
  cases stale with
  | false =>
    obtain rfl := hrest
    obtain ⟨rfl, hfresh⟩ := World.isStale_eq_false_iff.1 hstale
    exact hfresh.current hfile hfiles
  | true =>
    obtain ⟨w₃, w₄, tool, shown, hdelete, hsay, htool, hrun⟩ := hrest
    have htools : w₄.tools.Honest := by
      have h₂ := (h.next (hcourse.directories _ hdirectories)).next
        (hcourse.spoken _ _ (World.isStale_eq_ok hstale))
      obtain ⟨console, rfl⟩ := hsay
      split at hdelete
      · obtain ⟨d, -, rfl⟩ := World.delete_eq_ok hdelete
        exact h₂.honest_now
      · rw [hdelete]
        exact h₂.honest_now
    obtain ⟨before, -, rfl⟩ := Compiler.tool_eq_ok_iff.1 htool
    have hout : Command.output? ((before ++ "ar") :: "rcs" :: path.toText ::
        objects.map Path.toText) = some path := by
      rw [Command.output?_ar]
      exact congrArg some hplain.readBack
    exact hw'.punctual_now.current (World.dates_of_run htools hout hrun hfile) hfiles

/-- After its link a binary is as new as all that it was linked of, its record among them, and the
record reads as the command. -/
theorem current_of_link (h : Underway C since w) {archives symbolFiles : List Path}
    {script output q : Path}
    (hC : ∀ command, c.linkCommand archives script output symbolFiles = .ok command →
      C command ∧ command.output? = some output)
    (hinputs : ∀ p ∈ archives ++ symbolFiles ++ [script], w.disk.HasFile p)
    (hreturn : ∀ command, c.linkCommand archives script output symbolFiles = .ok command →
      .character '\r' ∉ command.text.codes)
    (happart : ∀ record, Compiler.beside output ".cmd" = .ok record →
      output.place since.disk.here ≠ record.place since.disk.here)
    (hr : c.link archives script output symbolFiles w = .ok q w')
    (hfile : ¬ w'.disk.files.IsDirectory (output.place since.disk.here)) :
    ∃ record command, Compiler.beside output ".cmd" = .ok record ∧
      c.linkCommand archives script output symbolFiles = .ok command ∧
      w'.disk.Recorded record (command.text ++ "\n") ∧
      w'.disk.Current output (archives ++ symbolFiles ++ [script, record]) := by
  have hcourse := course_progress C
  obtain ⟨-, w₁, record, command, b, w₂, stale, w₃, hdirectories, hrecord, hcommand, hwrite,
    hstale, hrest⟩ := Compiler.link_steps hr
  obtain ⟨hcC, hout⟩ := hC command hcommand
  refine ⟨record, command, hrecord, hcommand, ?_⟩
  have h₁ := h.next (hcourse.directories _ hdirectories)
  have h₂ := h₁.next (hcourse.record _ _ _ _ (by simp) hrecord hwrite)
  have hspoken := World.isStale_eq_ok hstale
  have h₃ := h₂.next (hcourse.spoken _ _ hspoken)
  have hwritten : w₂.disk.Recorded record (command.text ++ "\n") := by
    obtain ⟨d, hstored, rfl⟩ := World.attempt_eq_ok hwrite
    refine Disk.recorded_of_writeIfChanged hstored ?_
    rw [Text.codes_append, List.mem_append, not_or]
    exact ⟨hreturn command hcommand, by decide⟩
  have hfiles : ∀ p ∈ archives ++ symbolFiles ++ [script, record], w₂.disk.HasFile p := by
    intro p hp
    rw [List.append_cons, List.mem_append, List.mem_singleton] at hp
    rcases hp with hp | rfl
    · exact (h₁.step (hcourse.record _ _ _ _ (by simp) hrecord hwrite)).disk.hasFile
        ((h.step (hcourse.directories _ hdirectories)).disk.hasFile (hinputs p hp))
    · exact hwritten.hasFile
  cases stale with
  | false =>
    obtain ⟨rfl, hfresh⟩ := World.isStale_eq_false_iff.1 hstale
    rw [(hrest : Spoken _ _).unmoved.disk] at hfile ⊢
    exact ⟨hwritten, hfresh.current (h₂.here ▸ hfile) hfiles⟩
  | true =>
    obtain ⟨w₄, shown, hsay, hrun⟩ := hrest
    have hsame : w₄.disk = w₂.disk := hsay.unmoved.disk.trans hspoken.unmoved.disk
    have h₄ := h₃.next (hcourse.spoken _ _ hsay)
    rw [← hsame] at hwritten hfiles
    exact ⟨h₄.recorded_of_run hout (happart record hrecord) hrun hwritten,
      h₄.current_of_run hcC hout hrun hfiles hfile⟩

end

end Underway
end DualImage
