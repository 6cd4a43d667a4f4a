import DualImage.Proofs.Compiler.Course
import DualImage.Proofs.Workspace.Advance

/-! What a build that goes well does to the files: every new one is the output of a command that the
build has started, or a record. -/
namespace DualImage

/-- The last component of the place ends in this character. -/
def Place.EndsIn (c : Char) (place : Place) : Prop :=
  ∃ above name, place = above ++ [FileName.canonical name] ∧
    name.codes.getLast? = some (.character c)

/-- The place of a record that is kept beside an output. -/
def Place.IsRecord (place : Place) : Prop := Place.EndsIn 'd' place ∨ Place.EndsIn 'p' place

theorem Place.EndsIn.byte_eq {place : Place} {c c' : Char} {byte byte' : UInt8}
    (h : EndsIn c place) (h' : EndsIn c' place)
    (hc : FileName.bytesOf? (.character c) = some [byte])
    (hc' : FileName.bytesOf? (.character c') = some [byte']) : byte = byte' := by
  obtain ⟨above, name, rfl, hlast⟩ := h
  obtain ⟨above', name', hplace, hlast'⟩ := h'
  obtain ⟨-, hname⟩ := List.append_inj' hplace rfl
  exact FileName.lastByte_eq_of_canonical_eq hlast hlast' hc hc' (List.singleton_inj.1 hname)

/-- A path whose name ends in a character other than a dot leads below the path above it. -/
theorem Path.place_eq_concat {p : Path} {c : Char} (h : p.name.codes.getLast? = some (.character c))
    (hc : c ≠ '.') (here : Place) :
    p.place here = p.parent.place here ++ [FileName.canonical p.name] := by
  obtain ⟨anchor, parts⟩ := p
  rcases List.eq_nil_or_concat parts with rfl | ⟨above, last, rfl⟩
  · cases h
  · have hname : name ⟨anchor, above.concat last⟩ = last := by simp [name]
    rw [hname] at h ⊢
    have hne : ∀ t : Text, t.codes.getLast? = some (.character '.') → last ≠ t := by
      rintro t ht rfl
      rw [ht] at h
      cases h
      exact hc rfl
    have hparent : parent ⟨anchor, above.concat last⟩ = ⟨anchor, above⟩ := by simp [parent]
    rw [hparent, place, place, List.concat_eq_append, List.foldl_append, List.foldl_cons,
      List.foldl_nil, enter, if_neg (hne "." rfl), if_neg (hne ".." rfl)]
    rfl

theorem Path.endsIn_place {p : Path} {c : Char} (h : p.name.codes.getLast? = some (.character c))
    (hc : c ≠ '.') (here : Place) : Place.EndsIn c (p.place here) :=
  ⟨_, _, p.place_eq_concat h hc here, h⟩

theorem isRecord_of_beside {p record : Path} {ending : String} (hending : ending ∈ [".cmd", ".keep"])
    (h : Compiler.beside p ending = .ok record) (here : Place) :
    Place.IsRecord (record.place here) := by
  obtain ⟨-, rfl⟩ := Compiler.beside_eq_ok h
  have hname : Path.name ⟨p.anchor, p.parts.dropLast ++ [p.name ++ ending]⟩ = p.name ++ ending := by
    simp [Path.name]
  have hlast {tail : String} {c : Char} (ht : (tail : Text).codes.getLast? = some (.character c)) :
      (p.name ++ tail).codes.getLast? = some (.character c) := by
    rw [Text.codes_append, List.getLast?_append, ht]
    rfl
  rw [List.mem_cons, List.mem_singleton] at hending
  rcases hending with rfl | rfl
  · refine .inl (Path.endsIn_place ?_ (by decide) here)
    rw [hname]
    exact hlast rfl
  · refine .inr (Path.endsIn_place ?_ (by decide) here)
    rw [hname]
    exact hlast rfl

theorem Place.EndsIn.not_isRecord {place : Place} {c : Char} {byte : UInt8} (h : EndsIn c place)
    (hc : FileName.bytesOf? (.character c) = some [byte]) (hne : byte ≠ 100 ∧ byte ≠ 112) :
    ¬ place.IsRecord := by
  rintro (hd | hp)
  · exact hne.1 (h.byte_eq hd hc rfl)
  · exact hne.2 (h.byte_eq hp hc rfl)

/-- The command writes at this place when it succeeds. -/
def Command.Writes (here place : Place) (c : Command) : Prop :=
  ∃ p, c.output? = some p ∧ p.place here = place

/-- No rule lets a command pass that writes nothing. -/
def Tools.Honest (t : Tools) : Prop := ∀ rule ∈ t.rules, rule.absent = true ∨ rule.status ≠ 0

instance (t : Tools) : Decidable t.Honest := by
  unfold Tools.Honest
  infer_instance

/-- Where files may be new once these commands have succeeded. -/
def Written (here : Place) (commands : List Command) (place : Place) : Prop :=
  place.IsRecord ∨ ∃ c ∈ commands, c.Writes here place

/-- Commands of the given kind have been started, and new files are where they wrote. -/
structure Progressed (C : Command → Prop) (w w' : World) : Prop where
  tools : w'.tools = w.tools
  commands : ∃ new, w'.commands = w.commands ++ new ∧ (∀ c ∈ new, C c) ∧
    Disk.Advances (Written w.disk.here new) w.disk w'.disk

/-- A command of the kind has been started between the two. -/
def World.Ran (P : Command → Prop) (w w' : World) : Prop :=
  ∃ new, w'.commands = w.commands ++ new ∧ ∃ c ∈ new, P c

theorem World.Ran.imp {P P' : Command → Prop} {w w' : World} (h : Ran P w w')
    (hP : ∀ c, P c → P' c) : Ran P' w w' := by
  obtain ⟨new, hcommands, c, hc, hPc⟩ := h
  exact ⟨new, hcommands, c, hc, hP c hPc⟩

/-- From a world in order with honest tools. -/
def Progress (C : Command → Prop) (w w' : World) : Prop :=
  w.disk.Grounded → w.tools.Honest → Progressed C w w'

namespace Progressed
variable {C C' : Command → Prop} {w w' w'' : World}

theorem disk (h : Progressed C w w') : Disk.Advances (fun _ => True) w.disk w'.disk := by
  obtain ⟨new, -, -, hdisk⟩ := h.commands
  exact hdisk.imp fun _ _ => trivial

theorem of_disk (htools : w'.tools = w.tools) (hcommands : w'.commands = w.commands)
    (hdisk : Disk.Advances Place.IsRecord w.disk w'.disk) : Progressed C w w' where
  tools := htools
  commands := by
    refine ⟨[], ?_, List.forall_mem_nil _, hdisk.imp fun _ => .inl⟩
    rw [hcommands, List.append_nil]

theorem trans (h : Progressed C w w') (h' : Progressed C w' w'') : Progressed C w w'' where
  tools := h'.tools.trans h.tools
  commands := by
    obtain ⟨new, hcommands, hC, hdisk⟩ := h.commands
    obtain ⟨new', hcommands', hC', hdisk'⟩ := h'.commands
    refine ⟨new ++ new', ?_, ?_, ?_⟩
    · rw [hcommands', hcommands, List.append_assoc]
    · intro c hc
      exact (List.mem_append.1 hc).elim (hC c) (hC' c)
    · rw [hdisk.here] at hdisk'
      refine (hdisk.imp fun _ => Or.imp_right ?_).trans (hdisk'.imp fun _ => Or.imp_right ?_)
      · rintro ⟨c, hc, hwrites⟩
        exact ⟨c, List.mem_append_left _ hc, hwrites⟩
      · rintro ⟨c, hc, hwrites⟩
        exact ⟨c, List.mem_append_right _ hc, hwrites⟩

theorem ran {since : World} {P : Command → Prop} (h : Progressed C w w')
    (hran : World.Ran P since w) : World.Ran P since w' := by
  obtain ⟨new, hcommands, c, hc, hP⟩ := hran
  obtain ⟨new', hcommands', -, -⟩ := h.commands
  refine ⟨new ++ new', ?_, c, List.mem_append_left _ hc, hP⟩
  rw [hcommands', hcommands, List.append_assoc]

theorem imp (h : Progressed C w w') (hC : ∀ c, C c → C' c) : Progressed C' w w' := by
  obtain ⟨new, hcommands, hnew, hdisk⟩ := h.commands
  exact ⟨h.tools, new, hcommands, fun c hc => hC c (hnew c hc), hdisk⟩

end Progressed

instance {C : Command → Prop} : IsPreorder World (Progress C) where
  refl _ hd _ := .of_disk rfl rfl (.refl hd)
  trans _ _ _ h h' hd htools := by
    have hfirst := h hd htools
    exact hfirst.trans (h' hfirst.disk.grounded (hfirst.tools ▸ htools))

namespace World
variable {C : Command → Prop} {w w' : World} {p : Path}

private theorem change_eq_ok {step : Disk → Except FileFault Disk} (h : change step w = .ok () w') :
    ∃ d, step w.disk = .ok d ∧ w' = { w with disk := d } := by
  obtain ⟨d, hstep, rfl⟩ := attempt_eq_ok h
  split at hstep
  · next hd =>
    cases hstep
    exact ⟨d, hd, rfl⟩
  · cases hstep

theorem delete_eq_ok (h : change (·.delete p) w = .ok () w') :
    ∃ d, w.disk.delete p = .ok d ∧ w' = { w with disk := d } :=
  change_eq_ok h

/-- With honest tools a command that succeeds has made its output new, if it has one. -/
theorem run_eq_ok {c : Command} {shown : Option String} (htools : w.tools.Honest)
    (h : run c w = .ok shown w') :
    c.output? = none ∧ w' = w.started c ∨
      ∃ p d d' place, c.output? = some p ∧ w.disk.ensureDirectories p.parent = (.ok (), d) ∧
        d.locate p = .ok place ∧ Disk.Renewed place d d' ∧ w' = { w.started c with disk := d' } := by
  cases hrule : w.tools.rule? c with
  | some rule =>
    rw [run_eq_reply (.inr (by simp [hrule])), Tools.reply, hrule] at h
    dsimp only at h
    rcases htools rule (List.mem_of_find?_eq_some hrule) with habsent | hstatus
    · rw [if_pos habsent] at h
      cases h
    · rw [if_pos (bne_iff_ne.2 hstatus)] at h
      split at h <;> cases h
  | none =>
    cases hc : c.output? with
    | none =>
      rw [run_eq_reply (.inl hc), Tools.reply, hrule] at h
      cases h
      exact .inl ⟨rfl, rfl⟩
    | some p =>
      rw [run_eq_renew hrule hc] at h
      obtain ⟨_, w₁, hrenew, h⟩ := Action.bind_eq_ok_iff.1 h
      cases h
      obtain ⟨_, w₂, hdirectories, htouch⟩ := Action.bind_eq_ok_iff.1 hrenew
      obtain ⟨d, hd, rfl⟩ := attempt_eq_ok (failingAs_eq_ok hdirectories)
      obtain ⟨d', hd', rfl⟩ := change_eq_ok (failingAs_eq_ok htouch)
      obtain ⟨place, hplace, hr⟩ := Disk.touch_eq_ok hd'
      exact .inr ⟨p, d, d', place, rfl, hd, hplace, hr, rfl⟩

theorem progressed_run {c : Command} {shown : Option String} (hd : w.disk.Grounded)
    (htools : w.tools.Honest) (hC : C c) (h : run c w = .ok shown w') : Progressed C w w' := by
  have hone : ∀ c' ∈ [c], C c' := List.forall_mem_singleton.2 hC
  rcases run_eq_ok htools h with ⟨-, rfl⟩ | ⟨p, d, d', place, hc, hdirectories, hplace, hr, rfl⟩
  · exact ⟨rfl, [c], rfl, hone, .refl hd⟩
  · refine ⟨rfl, [c], rfl, hone, ?_⟩
    have hfirst := Disk.advances_ensureDirectories (Written w.disk.here [c]) hd p.parent
    rw [hdirectories] at hfirst
    refine hfirst.trans ((hr.advances hfirst.grounded hplace).imp ?_)
    rintro q rfl
    refine .inr ⟨c, List.mem_singleton_self c, p, hc, ?_⟩
    rw [Disk.eq_place_of_locate hplace, hfirst.here]

/-- An output that is made anew in place of an old one is the only new file. -/
private theorem progressed_rewrite {c : Command} {shown : Option String} {d : Disk}
    {console : Console} (hd : w.disk.Grounded) (htools : w.tools.Honest) (hC : C c)
    (hout : c.output? = some p) (hgone : w.disk.delete p = .ok d)
    (hrun : run c { w with disk := d, console } = .ok shown w') : Progressed C w w' := by
  have hhonest : ({ w with disk := d, console } : World).tools.Honest := htools
  rcases run_eq_ok hhonest hrun with ⟨hnone, -⟩ | ⟨q, d₁, d₂, place, hq, hmade, hplace, hr, rfl⟩
  · rw [hout] at hnone
    cases hnone
  · obtain rfl := Option.some.inj (hout.symm.trans hq)
    cases (Disk.ensureDirectories_delete hgone hd).symm.trans hmade
    have hadvances := Disk.advances_delete_renewed hgone hd hr hplace
    refine ⟨rfl, [c], rfl, List.forall_mem_singleton.2 hC, hadvances.imp ?_⟩
    rintro q rfl
    refine .inr ⟨c, List.mem_singleton_self c, p, hout, ?_⟩
    rw [← hadvances.here, hr.here]
    exact (Disk.eq_place_of_locate hplace).symm

/-- An archive that is made anew in place of an old one is the only new file. -/
private theorem progressed_archive {c : Compiler} {objects : List Path} {path q : Path}
    (hd : w.disk.Grounded) (htools : w.tools.Honest) (hplain : path.Plain)
    (hC : ∀ tool, c.tool "ar" = .ok tool →
      C (tool :: "rcs" :: path.toText :: objects.map Path.toText))
    (h : c.archive objects path w = .ok q w') : Progressed C w w' := by
  obtain ⟨-, w₁, stale, w₂, hdirectories, hstale, hrest⟩ := Compiler.archive_steps h
  obtain ⟨d, hmade, rfl⟩ := attempt_eq_ok hdirectories
  obtain ⟨console, hw₂⟩ := isStale_eq_ok hstale
  have hfirst : Progressed C w w₂ := by
    have hadvances := Disk.advances_ensureDirectories Place.IsRecord hd path.parent
    rw [hmade] at hadvances
    rw [hw₂]
    exact .of_disk rfl rfl hadvances
  cases stale with
  | false =>
    rw [if_neg Bool.false_ne_true] at hrest
    exact hrest ▸ hfirst
  | true =>
    obtain ⟨w₃, w₄, tool, shown, hdelete, ⟨console', rfl⟩, htool, hrun⟩ := hrest
    have hd₂ := hfirst.disk.grounded
    have htools₂ : w₂.tools.Honest := hfirst.tools ▸ htools
    refine hfirst.trans ?_
    by_cases hthere : (w₂.disk.entry path).isOk = true
    · rw [if_pos hthere] at hdelete
      obtain ⟨d', hgone, rfl⟩ := delete_eq_ok hdelete
      obtain ⟨before, -, rfl⟩ := Compiler.tool_eq_ok_iff.1 htool
      have hout : Command.output? ((before ++ "ar") :: "rcs" :: path.toText ::
          objects.map Path.toText) = some path := by
        rw [Command.output?_ar]
        exact congrArg some hplain.readBack
      exact progressed_rewrite hd₂ htools₂ (hC _ htool) hout hgone hrun
    · rw [if_neg hthere] at hdelete
      rw [hdelete] at hrun
      have hsaid : Progressed C w₂ { w₂ with console := console' } := .of_disk rfl rfl (.refl hd₂)
      exact hsaid.trans (progressed_run hd₂ htools₂ (hC tool htool) hrun)

end World

/-- Every step of a build progresses. -/
theorem course_progress (C : Command → Prop) : Course C Path.Plain (Progress C) where
  spoken := by
    rintro w _ ⟨console, rfl⟩ hd -
    exact .of_disk rfl rfl (.refl hd)
  directories p := by
    intro w _ w' hr hd _
    obtain ⟨d, hmade, rfl⟩ := World.attempt_eq_ok hr
    have hadvances := Disk.advances_ensureDirectories Place.IsRecord hd p
    rw [hmade] at hadvances
    exact .of_disk rfl rfl hadvances
  record p ending record text hending hbeside := by
    intro w _ w' hr hd _
    obtain ⟨place, hplace, rfl | ⟨d, rfl, -, hnew⟩⟩ := World.writeIfChanged_eq_ok hr
    · exact .of_disk rfl rfl (.refl hd)
    · refine .of_disk rfl rfl ((hnew.advances hd hplace).imp ?_)
      rintro q rfl
      rw [Disk.eq_place_of_locate hplace]
      exact isRecord_of_beside hending hbeside w.disk.here
  run c hC _ _ _ hr hd htools := World.progressed_run hd htools hC hr
  archive c objects path hplain hC _ _ _ hr hd htools :=
    World.progressed_archive hd htools hplain hC hr

end DualImage
