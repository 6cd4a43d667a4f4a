import DualImage.Proofs.Half.Leaving

/-! Links that need no more work: the binary is as new as what it was linked of, and the record beside
it reads as the command. -/
namespace DualImage
variable {since : World}

namespace Compiler

/-- A command for linking is made of these texts. -/
private theorem isUnreturned_linkCommand {c : Compiler} {archives symbolFiles : List Path}
    {script output : Path} {command : Command}
    (htool : ∀ t, c.toolPrefix.shown = .ok t → t.IsUnreturned)
    (hflags : ∀ f ∈ c.linkFlags, ∀ t, f.text? = some t → t.IsUnreturned)
    (hpaths : ∀ p ∈ output :: archives ++ symbolFiles ++ [script], p.toText.IsUnreturned)
    (h : c.linkCommand archives script output symbolFiles = .ok command) :
    command.text.IsUnreturned := by
  obtain ⟨gcc, hgcc, h⟩ := Except.bind_eq_ok_iff.1 h
  obtain ⟨before, hbefore, rfl⟩ := tool_eq_ok_iff.1 hgcc
  refine (Text.isUnreturned_intercalate_iff (by decide)).2 fun word hword => ?_
  obtain ⟨d, hd, htext⟩ := World.exists_text_of_mem_words h hword
  simp only [List.mem_cons, List.mem_append, List.mem_map, List.not_mem_nil, or_false] at hd
  have hpath (start : String) (hstart : Text.IsUnreturned start) {p : Path}
      (hp : p ∈ output :: archives ++ symbolFiles ++ [script]) : (start ++ p.toText).IsUnreturned :=
    Text.IsUnreturned.append hstart (hpaths p hp)
  rcases hd with ((((((rfl | rfl | rfl) | hd) | rfl | rfl) | ⟨p, hp, rfl⟩) | rfl) | ⟨p, hp, rfl⟩) | rfl
  · cases htext
    exact (htool _ hbefore).append (by decide)
  · cases htext
    decide
  · cases htext
    exact hpaths output (by simp)
  · exact hflags d hd word htext
  · cases htext
    exact hpath _ (by decide) (by simp)
  · cases htext
    exact (hpath _ (by decide) (by simp)).append (by decide)
  · cases htext
    exact hpath _ (by decide) (by simp [hp])
  · cases htext
    decide
  · cases htext
    exact hpaths p (by simp [hp])
  · cases htext
    decide

end Compiler

namespace Half
variable {h : Half} {d d' : Disk} {script : Path} {symbolFiles : List Path}

/-- Texts that go into the commands for linking the half, besides those of the scripts. -/
def linkTexts (h : Half) : List Text :=
  h.buildDir.toText :: h.compiler.toolPrefix.shown.toOption.toList ++
    h.compiler.linkFlags.filterMap (·.text?) ++ h.packages.filterMap (·.name.text?)

/-- The half is linked: its binary is as new as all that it was linked of, and the record beside it
holds the command. -/
def Linked (h : Half) (script : Path) (symbolFiles : List Path) (d : Disk) : Prop :=
  ∃ record command, (h.archivePaths = .ok (h.shelf.map (·.2)) ∧
    Compiler.beside h.binary ".cmd" = .ok record ∧
    h.compiler.linkCommand (h.shelf.map (·.2)) script h.binary symbolFiles = .ok command) ∧
    d.Recorded record (command.text ++ "\n") ∧
    d.Current h.binary (h.shelf.map (·.2) ++ symbolFiles ++ [script, record])

section
variable (hh : h.Regular) (htexts : ∀ t ∈ h.linkTexts, t.IsUnreturned)
include hh htexts

private theorem isUnreturned_directory : h.directory.toText.IsUnreturned := by
  refine Path.isUnreturned_child (htexts _ (by simp [linkTexts])) ?_
  rcases hh.name with hname | hname <;> rw [hname] <;> decide

theorem isUnreturned_binary : h.binary.toText.IsUnreturned := by
  refine Path.isUnreturned_child (isUnreturned_directory hh htexts) ?_
  rcases hh.name with hname | hname <;> rw [hname] <;> decide

theorem isUnreturned_loaderImage : h.loaderImage.toText.IsUnreturned := by
  refine Path.isUnreturned_child (isUnreturned_directory hh htexts) ?_
  rcases hh.name with hname | hname <;> rw [hname] <;> decide

omit hh htexts in
private theorem isUnreturned_fileName {name t : Text} (hname : name.IsUnreturned)
    (ht : Package.fileName? (.text name) = some t) : t.IsUnreturned := by
  cases ht
  intro hmem
  obtain ⟨c, hc, heq⟩ := List.mem_map.1 hmem
  split at heq
  · exact absurd heq (by decide)
  · exact hname (heq ▸ hc)

/-- The archives that a half has after its build. -/
theorem isUnreturned_of_mem_stock {p : Path} (hp : p ∈ (h.stock h.packages).map (·.2)) :
    p.toText.IsUnreturned := by
  obtain ⟨⟨name, path⟩, hentry, rfl⟩ := List.mem_map.1 hp
  obtain ⟨package, hpackage, hentry⟩ := List.mem_filterMap.1 hentry
  obtain ⟨name', hname, hentry⟩ := Option.bind_eq_some_iff.1 hentry
  split at hentry
  · cases hentry
    have hlib := Path.isUnreturned_child (isUnreturned_directory hh htexts)
      (t := "lib") (by decide)
    refine Path.isUnreturned_child hlib (Text.IsUnreturned.append ?_ (by decide))
    refine isUnreturned_fileName (htexts name ?_) rfl
    exact List.mem_append_right _ (List.mem_filterMap.2 ⟨package, hpackage, hname⟩)
  · cases hentry

/-- A half is linked when its link has succeeded. -/
theorem linked_of_link {C : Command → Prop} {w w' : World} (hu : Underway C since w)
    (hC : ∀ c, Command.Builds c → C c) {q : Path}
    (hfiles : ∀ p ∈ h.shelf.map (·.2) ++ symbolFiles ++ [script], w.disk.HasFile p)
    (hpaths : ∀ p ∈ h.shelf.map (·.2) ++ symbolFiles ++ [script], p.toText.IsUnreturned)
    (hr : h.link script symbolFiles w = .ok q w')
    (hfile : ¬ w'.disk.files.IsDirectory (h.binary.place since.disk.here)) :
    h.Linked script symbolFiles w'.disk := by
  obtain ⟨archives, w₁, hlift, hlink⟩ := Action.bind_eq_ok_iff.1 hr
  obtain ⟨harchives, rfl⟩ := World.lift_eq_ok_iff.1 hlift
  cases archivePaths_eq_ok harchives
  have hissued : ∀ command, h.compiler.linkCommand (h.shelf.map (·.2)) script h.binary symbolFiles =
      .ok command → C command ∧ command.output? = some h.binary := fun command hcommand =>
    ⟨hC _ (hh.issues.link _ _ _ _ hcommand), Compiler.output?_of_linkCommand hh.plain_binary hcommand⟩
  have happart : ∀ record, Compiler.beside h.binary ".cmd" = .ok record →
      h.binary.place since.disk.here ≠ record.place since.disk.here := fun record hrecord hplace =>
    (hh.binary_place since.disk.here).1.not_isRecord rfl (by decide)
      (hplace ▸ isRecord_of_beside (by simp) hrecord since.disk.here)
  have hreturn : ∀ command, h.compiler.linkCommand (h.shelf.map (·.2)) script h.binary symbolFiles =
      .ok command → command.text.IsUnreturned := fun command hcommand => by
    refine Compiler.isUnreturned_linkCommand (fun t ht => htexts t ?_)
      (fun f hf t ht => htexts t ?_)
      (List.forall_mem_cons.2 ⟨isUnreturned_binary hh htexts, hpaths⟩) hcommand
    · simp [linkTexts, ht, Except.toOption]
    · exact List.mem_append_left _ (List.mem_append_right _ (List.mem_filterMap.2 ⟨f, hf, ht⟩))
  obtain ⟨record, command, hrecord, hcommand, hrecorded, hcurrent⟩ :=
    hu.current_of_link hissued hfiles hreturn happart hlink hfile
  exact ⟨record, command, ⟨harchives, hrecord, hcommand⟩, hrecorded, hcurrent⟩

end

namespace Linked

/-- A half stays linked while nothing is written that it was linked of. -/
theorem leaving (hl : h.Linked script symbolFiles d) {S : Place → Prop} (hd : Disk.Leaving S d d')
    (hbinary : S (h.binary.place d.here))
    (hrecord : ∀ record, Compiler.beside h.binary ".cmd" = .ok record → S (record.place d.here))
    (hinputs : ∀ p ∈ h.shelf.map (·.2) ++ symbolFiles ++ [script], S (p.place d.here)) :
    h.Linked script symbolFiles d' := by
  obtain ⟨record, command, ⟨harchives, hbeside, hcommand⟩, hrecorded, hcurrent⟩ := hl
  have hrecord := hrecord record hbeside
  refine ⟨record, command, ⟨harchives, hbeside, hcommand⟩, hd.recorded hrecord hrecorded,
    hd.current (List.forall_mem_cons.2 ⟨hbinary, ?_⟩) hcurrent⟩
  intro p hp
  rw [List.append_cons, List.mem_append, List.mem_singleton] at hp
  rcases hp with hp | rfl
  · exact hinputs p hp
  · exact hrecord

/-- A half that is linked is linked again without a command. -/
theorem answers_link {w : World} (hl : h.Linked script symbolFiles w.disk) :
    Answers Spoken (h.link script symbolFiles) (.ok h.binary) w := by
  obtain ⟨record, command, ⟨harchives, hbeside, hcommand⟩, hrecorded, hcurrent⟩ := hl
  have hparent : w.disk.hasDirectory h.binary.parent = true := by
    refine (hcurrent.hasFile _ List.mem_cons_self).hasDirectory_parent ?_
    exact (Compiler.beside_eq_ok hbeside).1
  refine Answers.andThen ⟨w, refl_of Spoken w, World.lift_eq_ok_iff.2 ⟨harchives, rfl⟩⟩ ?_
  rintro _ ⟨console, rfl⟩
  exact Compiler.answers_link_of_fresh hbeside hcommand hparent hrecorded hcurrent.fresh

end Linked

/-- A half that has not been built yet. Its sources are on the disk, outside of the directory that it is
built in, and it is not the case that one of its packages has no name and another one is named by a
dot. -/
structure Ready (h : Half) (d : Disk) : Prop where
  regular : h.Regular
  unbuilt : h.archives = []
  names : ¬ (Yields h.packages "" ∧ Yields h.packages ".")
  sources : ∀ p ∈ h.packages, ∀ source ∈ p.sources, d.Gives h.buildDir source
  texts : ∀ t ∈ h.linkTexts, t.IsUnreturned

namespace Ready
variable (hh : h.Ready since.disk) {h' : Half} {w w₁ w₂ : World}
include hh

theorem upheld_of_build (hu : Underway Command.Builds since w)
    (hbuild : Half.build (h, w) = .ok () (h', w₁))
    (hfiles : ∀ p ∈ h.outputs, ¬ w₁.disk.files.IsDirectory (p.place since.disk.here)) :
    h.Upheld since.disk w₁.disk :=
  Half.upheld_of_build (s := (h, w)) hh.regular hu hh.names
    (fun p hp source hsource => (hh.sources p hp source hsource).1) hbuild hfiles

/-- A half that is built and linked needs no more work. -/
theorem linked (hu : Underway Command.Builds since w) (hscript : since.disk.HasFile script)
    (htext : script.toText.IsUnreturned) (hbuild : Half.build (h, w) = .ok () (h', w₁)) {q : Path}
    (hlink : h'.link script [] w₁ = .ok q w₂)
    (hfiles : ∀ p ∈ h.binary :: h.outputs,
      ¬ w₂.disk.files.IsDirectory (p.place since.disk.here)) :
    h.Upheld since.disk w₂.disk ∧ h'.Linked script [] w₂.disk := by
  obtain ⟨hbinary, houtputs⟩ := List.forall_mem_cons.1 hfiles
  have hw₁ := (underway_of_build (s := (h, w)) hh.regular hu hbuild).2
  obtain ⟨⟨archives, rfl⟩, hshelf⟩ := shelf_of_build (s := (h, w)) hh.unbuilt hbuild
  have hregular := hh.regular.of_archives archives
  have hstep : Progress Command.Builds w₁ w₂ :=
    ensures_link (course_progress _) hregular.issues script [] hlink
  have hupheld := hh.upheld_of_build hu hbuild fun p hp => hw₁.not_isDirectory hstep (houtputs p hp)
  have hleft := hregular.leaving_of_link since.disk.here hlink
    hw₁.progressed.disk.grounded hw₁.here
  refine ⟨hupheld.leaving hleft fun p hp => ?_, ?_⟩
  · rw [hw₁.here]
    exact (hh.regular.isPiece_of_mem_outputs hp _).apart (hh.regular.binary_place _).1 (by simp)
  · refine linked_of_link hregular hh.texts hw₁ (fun _ => id) ?_ ?_ hlink hbinary
    all_goals
      rw [List.append_nil, hshelf]
      refine fun p hp => (List.mem_append.1 hp).elim (fun hp => ?_) fun hp => ?_
    · exact (hupheld.of_mem_stock hp).1
    · rw [List.mem_singleton.1 hp]
      exact hw₁.progressed.disk.hasFile hscript
    · exact isUnreturned_of_mem_stock hh.regular hh.texts hp
    · rw [List.mem_singleton.1 hp]
      exact htext

/-- Sources stay as they are while nothing is written outside of the directory of the build. -/
theorem rests (hupheld : h.Upheld since.disk d)
    (hleft : Disk.Leaving (¬ h.buildDir.place since.disk.here <+: ·) since.disk d) : h.Rests d := by
  have hdates : ∀ p ∈ h.packages, ∀ source ∈ p.sources,
      ∃ time, since.disk.Dates source time ∧ d.Dates source time := by
    intro p hp source hsource
    obtain ⟨⟨time, htime⟩, hplace⟩ := hh.sources p hp source hsource
    exact ⟨time, htime, hleft.dates hplace htime⟩
  refine ⟨hupheld.now fun p hp source hsource time htime => ?_, fun p hp source hsource => ?_⟩
  · obtain ⟨t, ht, hnow⟩ := hdates p hp source hsource
    rwa [htime.unique hnow]
  · obtain ⟨t, -, hnow⟩ := hdates p hp source hsource
    exact ⟨t, hnow⟩

end Ready

end Half
end DualImage
