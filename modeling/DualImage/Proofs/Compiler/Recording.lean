import DualImage.Proofs.Compiler.Calls
import DualImage.Proofs.Compiler.Upkeep
import DualImage.Proofs.Text.Breaks

/-! What a binary was last linked by. A call that links nothing has found the text of its own command in
the record, and the record tells commands apart as far as their texts do. -/
namespace DualImage
open Call (last?)

namespace Command
variable {c c' : Command}

/-- The text that is recorded for the command reads as the text of another one. -/
def PassesFor (c c' : Command) : Prop :=
  ∃ s : String, c.text ++ "\n" = Text.ofString s ∧
    Text.ofChars (Text.unifyBreaks s.toList) = c'.text ++ "\n"

/-- The words of the command can be told apart in its text, and the text reads as it is written. -/
def Legible (c : Command) : Prop := ∀ word ∈ c, .character ' ' ∉ word.codes ∧ word.IsUnreturned

instance : DecidablePred Legible := fun _ => inferInstanceAs (Decidable (∀ _ ∈ _, _ ∧ _))

/-- A command passes for every other that its record reads as. -/
theorem passesFor_of_reads {s : String}
    (hs : c.text ++ "\n" = Text.ofString s ∨
      Text.ofChars (Text.unifyBreaks s.toList) = c.text ++ "\n")
    (hreads : Text.ofChars (Text.unifyBreaks s.toList) = c'.text ++ "\n") : c.PassesFor c' := by
  rcases hs with hs | hs
  · exact ⟨s, hs, hreads⟩
  · refine ⟨String.ofList (Text.unifyBreaks s.toList), ?_, ?_⟩
    · rw [← hs, Text.ofString, String.toList_ofList]
    · rw [String.toList_ofList, Text.unifyBreaks_eq_self (Text.return_notMem_unifyBreaks _), hreads]

/-- Only the command itself passes for a legible one. -/
theorem eq_of_passesFor (h : c.PassesFor c') (hne : c ≠ []) (hne' : c' ≠ []) (hc : c.Legible)
    (hc' : c'.Legible) : c = c' := by
  obtain ⟨s, hs, hreads⟩ := h
  have hreturn : (c.text ++ "\n").IsUnreturned := by
    refine Text.IsUnreturned.append ?_ (by decide)
    exact (Text.isUnreturned_intercalate_iff (by decide)).2 fun word hword => (hc word hword).2
  have hplain : '\r' ∉ s.toList := fun hmem => by
    rw [hs] at hreturn
    exact hreturn (List.mem_map_of_mem hmem)
  rw [Text.unifyBreaks_eq_self hplain] at hreads
  have hcodes := congrArg Text.codes (hs.trans hreads)
  have htext : c.text = c'.text := congrArg Text.mk (List.append_cancel_right hcodes)
  exact Text.eq_of_intercalate_eq hne hne' (fun word hword => (hc word hword).1)
    (fun word hword => (hc' word hword).1) htext

end Command

/-- The call links a binary. -/
structure Call.Links (output : Path) (g : Call) : Prop where
  action : ∃ (c : Compiler) (archives : List Path) (script : Path) (symbolFiles : List Path),
    g.action = c.link archives script output symbolFiles
  grounded : g.before.disk.Grounded
  punctual : g.before.disk.Punctual

namespace Compiler
open World
variable {c : Compiler} {archives symbolFiles : List Path} {script output record p : Path}
  {w w' : World} {g : Call} {rest : List Call} {d d' : Disk} {latest : Option (Call × Command)}

/-- A record leads elsewhere than its binary. -/
theorem place_ne_of_beside (hplain : output.Plain) (hrecord : beside output ".cmd" = .ok record)
    (here : Place) : output.place here ≠ record.place here := by
  obtain ⟨hparts, rfl⟩ := beside_eq_ok hrecord
  have hname : Path.name ⟨output.anchor, output.parts.dropLast ++ [output.name ++ ".cmd"]⟩ =
      output.name ++ ".cmd" := by
    simp [Path.name]
  have hparent : Path.parent ⟨output.anchor, output.parts.dropLast ++ [output.name ++ ".cmd"]⟩ =
      output.parent := by
    simp [Path.parent]
  have hlast : (output.name ++ ".cmd").codes.getLast? = some (.character 'd') := by
    rw [Text.codes_append, List.getLast?_append]
    rfl
  have hplace := Path.place_eq_concat (hname ▸ hlast) (by decide) here
  rw [hname, hparent] at hplace
  have hout : output.place here = Path.enter (output.parent.place here) output.name := by
    rw [← Path.place_step, Path.parent, Path.name, List.getLast?_eq_some_getLast hparts,
      Option.getD_some, List.dropLast_concat_getLast hparts]
  have hdot : output.name ≠ "." := by
    rw [Path.name, List.getLast?_eq_some_getLast hparts, Option.getD_some]
    exact (hplain _ (List.getLast_mem hparts)).2.1
  rw [hplace, hout, Path.enter, if_neg hdot]
  split
  · intro heq
    have hlength := congrArg List.length heq
    rw [List.length_dropLast, List.length_append, List.length_singleton] at hlength
    omega
  · intro heq
    exact FileName.canonical_append_ne output.name (by decide)
      (List.singleton_inj.1 (List.append_cancel_left heq)).symm

/-- A record that is no newer than the binary vouches for the command by which the binary was last
linked, as far as it can be read. -/
def Vouches (output record : Path) (latest : Option (Call × Command)) (d : Disk) : Prop :=
  ∀ made old time text command, d.fileAt? output = some (made, old) →
    d.fileAt? record = some (time, text) → time ≤ made →
    Text.ofChars (Text.unifyBreaks text.toList) = command.text ++ "\n" →
    ∃ g last, latest = some (g, last) ∧ last.output? = some output ∧ last.PassesFor command ∧
      d.fileAt? output = g.after.disk.fileAt? output

namespace Vouches

theorem of_same (h : Vouches output record latest d) (houtput : d'.fileAt? output = d.fileAt? output)
    (hrecord : d'.fileAt? record = d.fileAt? record) : Vouches output record latest d' := by
  unfold Vouches
  rw [houtput, hrecord]
  exact h

/-- A record that is written anew vouches for nothing: it is newer than the binary, or empty. -/
theorem writeIfChanged (h : Vouches output record latest d) (hd : d.Grounded) (hpunctual : d.Punctual)
    (hne : record.place d.here ≠ output.place d.here) (text : Text) :
    Vouches output record latest (d.writeIfChanged record text).2 := by
  have houtput := (Disk.leaves_writeIfChanged hd text hne).fileAt?
  rcases d.fileAt?_writeIfChanged record text with hsame | ⟨s, -, hnew⟩ | hempty
  · rw [hsame]
    exact h
  · intro made old time text' command hmade htime hle
    rw [houtput] at hmade
    rw [hnew] at htime
    cases htime
    have hpast := hpunctual.fileAt?_le hmade
    omega
  · intro made old time text' command _ htime _ hreads
    rw [hempty] at htime
    cases htime
    have hlength := congrArg (fun t => t.codes.length) hreads
    have hone : ("\n" : Text).codes.length = 1 := rfl
    simp only [String.toList_empty, Text.unifyBreaks, Text.codes_append, List.length_append, hone,
      Text.ofChars, List.map_nil, List.length_nil] at hlength
    omega

end Vouches

/-- A binary that is up to date is left alone once its command is recorded, and else it is linked. -/
theorem link_eq_ok (hrecord : beside output ".cmd" = .ok record)
    (hr : c.link archives script output symbolFiles w = .ok p w') :
    ∃ d command b d', w.disk.ensureDirectories output.parent = (.ok (), d) ∧
      c.linkCommand archives script output symbolFiles = .ok command ∧
      d.writeIfChanged record (command.text ++ "\n") = (.ok b, d') ∧
      (d'.Fresh output (archives ++ symbolFiles ++ [script, record]) ∧ w'.disk = d' ∧
          w'.commands = w.commands ∨
        w'.commands = w.commands ++ [command] ∧
          d'.Overdue output (archives ++ symbolFiles ++ [script, record]) ∧
          ∃ w₁ shown, w₁.disk = d' ∧ run command w₁ = .ok shown w') := by
  obtain ⟨-, w₁, record', command, b, w₂, stale, w₃, hdirectories, hrecord', hcommand, hwrite, hstale,
    hrest⟩ := link_steps hr
  cases hrecord.symm.trans hrecord'
  obtain ⟨d, hd, rfl⟩ := attempt_eq_ok hdirectories
  obtain ⟨d', hd', rfl⟩ := attempt_eq_ok hwrite
  refine ⟨d, command, b, d', hd, hcommand, hd', ?_⟩
  cases stale with
  | false =>
    obtain ⟨rfl, hfresh⟩ := isStale_eq_false_iff.1 hstale
    obtain ⟨console, rfl⟩ : Spoken _ w' := hrest
    exact .inl ⟨hfresh, rfl, rfl⟩
  | true =>
    obtain ⟨w₄, shown, hsay, hrun⟩ := hrest
    obtain ⟨hchecked, hoverdue⟩ := isStale_eq_true hstale
    obtain ⟨console, rfl⟩ := trans_of Spoken hchecked hsay
    have hcommands := commands_of_run hrun
    exact .inr ⟨hcommands, hoverdue, _, shown, rfl, hrun⟩

/-- Between the two worlds the command comes to stand in the record beside the output, and it is run
unless the output is up to date with the inputs and the record. -/
def LinkedBy (command : Command) (output : Path) (inputs : List Path) (w w' : World) : Prop :=
  ∃ record d time s, beside output ".cmd" = .ok record ∧ d.fileAt? record = some (time, s) ∧
    (command.text ++ "\n" = Text.ofString s ∨
      Text.ofChars (Text.unifyBreaks s.toList) = command.text ++ "\n") ∧
    (d.Fresh output (inputs ++ [record]) ∧ w'.disk = d ∧ w'.commands = w.commands ∨
      d.Overdue output (inputs ++ [record]) ∧ w'.commands = w.commands ++ [command] ∧
        ∃ w₁ shown, w₁.disk = d ∧ run command w₁ = .ok shown w')

/-- A link that succeeds gives its output and has the linker make it of what it was given. -/
theorem linkedBy_of_link (hr : c.link archives script output symbolFiles w = .ok p w') :
    p = output ∧ ∃ command, c.linkCommand archives script output symbolFiles = .ok command ∧
      LinkedBy command output (archives ++ symbolFiles ++ [script]) w w' := by
  obtain ⟨hp, _, record, _, _, _, _, _, -, hrecord, -⟩ := link_steps hr
  obtain ⟨_, command, b, d, -, hcommand, hwrite, hrest⟩ := link_eq_ok hrecord hr
  obtain ⟨time, s, hfile, hreads⟩ := Disk.fileAt?_of_writeIfChanged hwrite
  refine ⟨hp, command, hcommand, record, d, time, s, hrecord, hfile, ?_, ?_⟩
  · exact hreads.symm.imp And.left And.right
  · rw [List.append_assoc, List.singleton_append]
    refine hrest.imp_right ?_
    rintro ⟨hcommands, hoverdue, hrun⟩
    exact ⟨hoverdue, hcommands, hrun⟩

section
variable (hplain : output.Plain) (hrecord : beside output ".cmd" = .ok record)
include hplain hrecord

/-- A call without a command that went through makes directories and writes the record at most. -/
private theorem leaves_of_not_linked (hg : g.Links output) (hdone : g.done? = none) :
    ∃ d, (d = (g.before.disk.ensureDirectories output.parent).2 ∨
        ∃ text, d = ((g.before.disk.ensureDirectories output.parent).2.writeIfChanged record text).2) ∧
      ∀ place, Disk.Leaves place d g.after.disk := by
  obtain ⟨⟨c, archives, script, symbolFiles, haction⟩, hgrounded, -⟩ := hg
  have hdirs := g.before.disk.leaves_ensureDirectories hgrounded output.parent []
  have hwritten (text : Text) :
      ((g.before.disk.ensureDirectories output.parent).2.writeIfChanged record text).2.Grounded :=
    (Disk.leaves_writeIfChanged hdirs.grounded text (place_ne_of_beside hplain hrecord _).symm).grounded
  cases hr : g.action g.before with
  | error f w' =>
    rw [Call.after_of_error hr]
    rw [haction] at hr
    rcases link_eq_error hr with ⟨-, hdisk⟩ | ⟨d, record', command, hd, hrecord', -, hlast⟩
    · exact ⟨_, .inl rfl, fun place => by rw [hdisk]; exact .refl hdirs.grounded⟩
    · cases hrecord.symm.trans hrecord'
      have hwritten := hwritten (command.text ++ "\n")
      refine ⟨_, .inr ⟨command.text ++ "\n", rfl⟩, fun place => ?_⟩
      rw [hd] at hwritten ⊢
      rcases hlast with ⟨-, hdisk⟩ | ⟨b, d', w₁, hd', -, ⟨console, rfl⟩, hrun⟩
      · rw [hdisk]
        exact .refl hwritten
      · rw [hd'] at hwritten ⊢
        exact leaves_of_run_error hwritten hrun place
  | ok p w' =>
    have hr' := hr
    rw [haction] at hr'
    obtain ⟨d, command, b, d', hd, -, hd', ⟨-, hdisk, -⟩ | ⟨hcommands, -⟩⟩ := link_eq_ok hrecord hr'
    · have hwritten := hwritten (command.text ++ "\n")
      refine ⟨_, .inr ⟨command.text ++ "\n", rfl⟩, fun place => ?_⟩
      rw [hd, hd'] at hwritten ⊢
      rw [Call.after_of_ok hr, hdisk]
      exact .refl hwritten
    · rw [Call.done?_of_ok hr hcommands] at hdone
      cases hdone

private theorem vouches_of_not_linked (hg : g.Links output) (hdone : g.done? = none)
    (h : Vouches output record latest g.before.disk) :
    Vouches output record latest g.after.disk := by
  obtain ⟨d, hd, hleaves⟩ := leaves_of_not_linked hplain hrecord hg hdone
  have hdirs := g.before.disk.leaves_ensureDirectories hg.grounded output.parent
  have hbefore := h.of_same (hdirs _).fileAt? (hdirs _).fileAt?
  suffices hd : Vouches output record latest d from
    hd.of_same (hleaves _).fileAt? (hleaves _).fileAt?
  rcases hd with rfl | ⟨text, rfl⟩
  · exact hbefore
  · have hpunctual := (Disk.advances_ensureDirectories (fun _ => False) hg.grounded
      output.parent).punctual hg.punctual
    exact hbefore.writeIfChanged (hdirs []).grounded hpunctual
      (place_ne_of_beside hplain hrecord _).symm text

private theorem vouches_of_linked {command : Command} (hg : g.Links output)
    (hdone : g.done? = some command) :
    Vouches output record (some (g, command)) g.after.disk := by
  obtain ⟨⟨c, archives, script, symbolFiles, haction⟩, hgrounded, -⟩ := hg
  have hdirs := g.before.disk.leaves_ensureDirectories hgrounded output.parent []
  cases hr : g.action g.before with
  | error f w' =>
    rw [Call.done?_of_error hr] at hdone
    cases hdone
  | ok p w' =>
    have hr' := hr
    rw [haction] at hr'
    obtain ⟨d, command', b, d', hd, hcommand, hd', hrest⟩ := link_eq_ok hrecord hr'
    rw [hd] at hdirs
    have hwritten := (Disk.leaves_writeIfChanged hdirs.grounded (command'.text ++ "\n")
      (place_ne_of_beside hplain hrecord _).symm).grounded
    rw [hd'] at hwritten
    rcases hrest with ⟨-, -, hcommands⟩ | ⟨hcommands, -, w₁, shown, rfl, hrun⟩
    · rw [Call.done?_of_quiet hr hcommands] at hdone
      cases hdone
    · rw [Call.done?_of_ok hr hcommands] at hdone
      cases hdone
      have hout := output?_of_linkCommand hplain hcommand
      have havoids : Command.Avoids w₁.disk.here (· = record.place w₁.disk.here) command' := by
        intro q hq
        rw [hout] at hq
        cases hq
        exact place_ne_of_beside hplain hrecord _
      have hleaving := ((conduct_leaving w₁.disk.here _).run command' havoids).ok hrun hwritten rfl
      have hsame : w'.disk.fileAt? record = w₁.disk.fileAt? record := by
        rw [Disk.fileAt?, Disk.fileAt?, hleaving.here]
        exact hleaving.file _ rfl
      obtain ⟨t, s, hs, htext⟩ := Disk.fileAt?_of_writeIfChanged hd'
      rw [Call.after_of_ok hr]
      intro made old time text command₂ _ htime _ hreads
      rw [hsame, hs] at htime
      cases htime
      refine ⟨g, command', rfl, hout, Command.passesFor_of_reads ?_ hreads, by rw [Call.after_of_ok hr]⟩
      rcases htext with ⟨-, htext⟩ | ⟨htext, -⟩
      · exact .inr htext
      · exact .inl htext

private theorem vouches_before (hcalls : Calls (Call.Links output) output [output, record] (g :: rest)) :
    Vouches output record (last? rest) g.before.disk := by
  refine hcalls.holds (I := Vouches output record) ?_ ?_ ?_ ?_
  · intro d hnone made old _ _ _ hmade
    rw [hnone] at hmade
    cases hmade
  · exact fun l d d' _ hsame h => h.of_same (hsame output (by simp)) (hsame record (by simp))
  · exact fun g command _ hg hdone _ => vouches_of_linked hplain hrecord hg hdone
  · exact fun g _ hg hdone h => vouches_of_not_linked hplain hrecord hg hdone h

/-- A call that links nothing leaves the binary that the last successful command has made, and the record
of that command reads as the command of this call. It is the same command when their words can be told
apart. -/
theorem last_linked
    (hcalls : Calls (Call.Links output) output [output, record]
      (⟨c.link archives script output symbolFiles, w⟩ :: rest))
    (hr : c.link archives script output symbolFiles w = .ok p w')
    (hquiet : w'.commands = w.commands)
    (hfile : ¬ w'.disk.files.IsDirectory (output.place w'.disk.here)) :
    ∃ command g last, c.linkCommand archives script output symbolFiles = .ok command ∧
      last? rest = some (g, last) ∧ w'.disk.fileAt? output = g.after.disk.fileAt? output ∧
      last.PassesFor command ∧ (last.Legible → command.Legible → last = command) := by
  have hlinks := hcalls.latest
  obtain ⟨d, command, b, d', hd, hcommand, hd', ⟨hfresh, hdisk, -⟩ | ⟨hcommands, -⟩⟩ :=
    link_eq_ok hrecord hr
  · rw [hdisk] at hfile ⊢
    have hdirs := w.disk.leaves_ensureDirectories hlinks.grounded output.parent
    have hpunctual := (Disk.advances_ensureDirectories (fun _ => False) hlinks.grounded
      output.parent).punctual hlinks.punctual
    have hvouches := (vouches_before hplain hrecord hcalls).of_same (hdirs _).fileAt? (hdirs _).fileAt?
    rw [hd] at hdirs hpunctual hvouches
    have houtput := (Disk.leaves_writeIfChanged (hdirs []).grounded (command.text ++ "\n")
      (place_ne_of_beside hplain hrecord _).symm).fileAt?
    rw [hd'] at houtput
    obtain ⟨e, he, hinputs⟩ := hfresh
    obtain ⟨i, hi, hle⟩ := hinputs record (by simp)
    obtain ⟨made, old, hmade⟩ := Disk.hasFile_of_not_isDirectory he hfile
    obtain rfl := Except.ok.inj (he.symm.trans hmade)
    have hmade := Disk.fileAt?_eq_some_of_entry hmade
    obtain ⟨time, text, htime, hcase⟩ := Disk.fileAt?_of_writeIfChanged hd'
    obtain rfl := Disk.eq_file_of_fileAt? htime hi
    rcases hcase with ⟨rfl, hreads⟩ | ⟨-, rfl⟩
    · obtain ⟨g, last, hlast, hout, hpasses, hsame⟩ := hvouches made old time text command hmade htime
        hle hreads
      refine ⟨command, g, last, hcommand, hlast, hsame, hpasses, fun hlegible hlegible' => ?_⟩
      refine Command.eq_of_passesFor hpasses ?_ ?_ hlegible hlegible'
      · rintro rfl
        cases hout
      · rintro rfl
        cases output?_of_linkCommand hplain hcommand
    · rw [houtput] at hmade
      have hpast : made ≤ d.clock := hpunctual.fileAt?_le hmade
      exact absurd (Int.le_trans hle hpast) (Int.not_le.2 (Int.lt_succ d.clock))
  · rw [hquiet] at hcommands
    exact absurd hcommands (by simp)

end

/-- A workspace in which the name of one file holds the names of two others. -/
def unlinked : World where
  disk := ⟨⟨[([], .directory 1), (["l"], .file 1 ""), (["a b"], .file 1 ""), (["a"], .file 1 ""),
    (["b"], .file 1 "")]⟩, 1, 100, []⟩
  tools := ⟨[], []⟩
  buildDirVariable := none
  console := .ofVerbosity 0
  commands := []

def binaryX : Path := ⟨.relative, ["x.elf"]⟩

def recordX : Path := ⟨.relative, ["x.elf.cmd"]⟩

def archivesOf (names : List String) : List Path := names.map fun name => ⟨.relative, [name]⟩

def linking (names : List String) (before : World) : Call :=
  ⟨link ⟨.text "", [], []⟩ (archivesOf names) ⟨.relative, ["l"]⟩ binaryX [], before⟩

def linkedA : Command :=
  ["gcc", "-o", "x.elf", "-Tl", "-Wl,-Map=x.elf.map", "-Wl,--start-group", "a", "-Wl,--end-group"]

def linkedTogether : Command :=
  ["gcc", "-o", "x.elf", "-Tl", "-Wl,-Map=x.elf.map", "-Wl,--start-group", "a b", "-Wl,--end-group"]

def linkedApart : Command :=
  ["gcc", "-o", "x.elf", "-Tl", "-Wl,-Map=x.elf.map", "-Wl,--start-group", "a", "b",
    "-Wl,--end-group"]

private theorem calls_linking {names : List String} (again : List String)
    (hafter : (linking names unlinked).after.disk.Grounded)
    (hpunctual : (linking names unlinked).after.disk.Punctual) :
    Calls (Call.Links binaryX) binaryX [binaryX, recordX]
      [linking again (linking names unlinked).after, linking names unlinked] := by
  have hbefore : unlinked.disk.Grounded := by decide +kernel
  have hpunctual' : unlinked.disk.Punctual := by decide +kernel
  have hnone : unlinked.disk.fileAt? binaryX = none := by decide +kernel
  exact .next (.start ⟨⟨_, _, _, _, rfl⟩, hbefore, hpunctual'⟩ hnone)
    ⟨⟨_, _, _, _, rfl⟩, hafter, hpunctual⟩ rfl fun _ _ => rfl

private theorem linkedOnce_facts :
    (linking ["a"] unlinked).after.disk.Grounded ∧ (linking ["a"] unlinked).after.disk.Punctual ∧
      (linking ["a"] unlinked).done? = some linkedA ∧
      answer? (link ⟨.text "", [], []⟩ (archivesOf ["a"]) ⟨.relative, ["l"]⟩ binaryX []
        (linking ["a"] unlinked).after) = some binaryX ∧
      (linking ["a"] (linking ["a"] unlinked).after).after.commands =
        (linking ["a"] unlinked).after.commands ∧
      ¬ (linking ["a"] (linking ["a"] unlinked).after).after.disk.files.IsDirectory
        (binaryX.place (linking ["a"] (linking ["a"] unlinked).after).after.disk.here) := by
  decide +kernel

theorem last_linked_again : ∃ command g last,
    linkCommand ⟨.text "", [], []⟩ (archivesOf ["a"]) ⟨.relative, ["l"]⟩ binaryX [] = .ok command ∧
      last? [linking ["a"] unlinked] = some (g, last) ∧ last = command := by
  have hplain : binaryX.Plain := by decide
  obtain ⟨hgrounded, hpunctual, hdone, hanswer, hquiet, hfile⟩ := linkedOnce_facts
  obtain ⟨command, g, last, hcommand, hlast, -, -, hlegible⟩ :=
    last_linked hplain (rfl : beside binaryX ".cmd" = .ok recordX)
      (calls_linking ["a"] hgrounded hpunctual) (eq_ok_of_answer? hanswer) hquiet hfile
  have hissued : linkCommand ⟨.text "", [], []⟩ (archivesOf ["a"]) ⟨.relative, ["l"]⟩ binaryX [] =
      .ok linkedA := rfl
  cases hissued.symm.trans hcommand
  cases (Call.last?_of_done hdone).symm.trans hlast
  exact ⟨_, _, _, hcommand, hlast, rfl⟩

private theorem linkedTogether_facts :
    (linking ["a b"] unlinked).after.disk.Grounded ∧
      (linking ["a b"] unlinked).after.disk.Punctual ∧
      (linking ["a b"] unlinked).done? = some linkedTogether ∧
      answer? (link ⟨.text "", [], []⟩ (archivesOf ["a", "b"]) ⟨.relative, ["l"]⟩ binaryX []
        (linking ["a b"] unlinked).after) = some binaryX ∧
      (linking ["a", "b"] (linking ["a b"] unlinked).after).done? = none := by
  decide +kernel

/-- A blank in the name of a file passes for the blank between two names: the binary stays linked of
other archives than the call asks for. -/
theorem archives_told_as_one :
    Calls (Call.Links binaryX) binaryX [binaryX, recordX]
        [linking ["a", "b"] (linking ["a b"] unlinked).after, linking ["a b"] unlinked] ∧
      answer? (link ⟨.text "", [], []⟩ (archivesOf ["a", "b"]) ⟨.relative, ["l"]⟩ binaryX []
        (linking ["a b"] unlinked).after) = some binaryX ∧
      (linking ["a", "b"] (linking ["a b"] unlinked).after).done? = none ∧
      last? [linking ["a b"] unlinked] = some (linking ["a b"] unlinked, linkedTogether) ∧
      linkCommand ⟨.text "", [], []⟩ (archivesOf ["a", "b"]) ⟨.relative, ["l"]⟩ binaryX [] =
        .ok linkedApart ∧
      linkedTogether ≠ linkedApart := by
  obtain ⟨hgrounded, hpunctual, hdone, hanswer, hquiet⟩ := linkedTogether_facts
  exact ⟨calls_linking _ hgrounded hpunctual, hanswer, hquiet, Call.last?_of_done hdone, rfl,
    by decide +kernel⟩

end Compiler
end DualImage
