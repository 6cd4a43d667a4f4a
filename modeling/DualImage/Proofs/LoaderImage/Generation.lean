import DualImage.LoaderImage.Build
import DualImage.Proofs.LoaderImage.Exports
import DualImage.Proofs.Workspace.Command

/-! Making the loader image, and what a failure on the way leaves of it. -/
namespace DualImage

/-- A path that is the same when its text is read back, and that ends in a name. -/
structure Path.NamesFile (p : Path) : Prop where
  readBack : Path.ofText p.toText = p
  name : p.name ≠ ".."

/-- No rule lets a copy succeed without renewing it: rules on copies make them fail. -/
def Tools.RenewsCopies (t : Tools) : Prop :=
  ∀ c rule, t.rule? c = some rule → c.tool.endsWith "objcopy" = true →
    rule.absent = true ∨ rule.status ≠ 0

namespace LoaderImage
open World
variable {c : Compiler} {image list : Path} {d d' : Disk} {w w' : World} {place : Place}

/-- The list of names was written beside the image. -/
structure Listed (image : Path) (d : Disk) (place : Place) (d' : Disk) : Prop where
  renewed : Disk.Renewed place d d'
  file : ¬ d.files.IsDirectory place
  above : d.files.IsDirectory place.dropLast
  beside : ∀ q, d.locate image = .ok q → q ≠ place ∧ q ≠ place.dropLast

private theorem keepFile_eq_ok (h : Compiler.keepFile image = .ok list) :
    image.parts ≠ [] ∧ list.parts ≠ [] ∧ list.parent = image.parent ∧
      list.name = image.name ++ ".keep" := by
  obtain ⟨hparts, rfl⟩ := Compiler.beside_eq_ok h
  exact ⟨hparts, by simp, by simp [Path.parent], by simp [Path.name]⟩

private theorem append_keep_ne (name : Text) {s : String} (hs : s.toList.length < 5) :
    name ++ ".keep" ≠ (s : Text) := by
  intro h
  have hlength := congrArg (fun t => t.codes.length) h
  have hkeep : (".keep" : Text).codes.length = 5 := rfl
  simp only [Text.codes_append, List.length_append, hkeep] at hlength
  simp only [Text.ofString, Text.ofChars, List.length_map] at hlength
  omega

/-- A path that leads to the list leads through the directory of the image. -/
private theorem listed_places (himage : image.NamesFile) (hlist : Compiler.keepFile image = .ok list)
    (hplace : d.locate list = .ok place) :
    d.hasDirectory image.parent = true ∧ d.files.IsDirectory place.dropLast ∧
      ∀ q, d.locate image = .ok q → q ≠ place ∧ q ≠ place.dropLast := by
  obtain ⟨hparts, hparts', hparent, hname⟩ := keepFile_eq_ok hlist
  obtain ⟨above, habove, hdir, hstep⟩ := Disk.locate_parent hparts' hplace
  rw [hparent] at habove
  rw [hname] at hstep
  have hlist := FileTree.step_of_ne (append_keep_ne _ (by decide)) (append_keep_ne _ (by decide))
    hstep
  have hdrop : place.dropLast = above := by rw [hlist, List.dropLast_concat]
  refine ⟨Disk.hasDirectory_iff.2 ⟨above, habove, hdir⟩, hdrop ▸ hdir, ?_⟩
  intro q hq
  obtain ⟨above', habove', -, hstep'⟩ := Disk.locate_parent hparts hq
  rw [habove] at habove'
  cases habove'
  have hdot : image.name ≠ "." := by
    have hmem : image.name ∈ (Path.ofText image.toText).parts := by
      rw [himage.readBack, Path.name, List.getLast?_eq_some_getLast hparts, Option.getD_some]
      exact List.getLast_mem hparts
    intro heq
    exact (Path.part_ne_of_mem_ofText hmem).2 (congrArg Text.codes heq)
  have hq := FileTree.step_of_ne hdot himage.name hstep'
  rw [hdrop, hq, hlist]
  refine ⟨?_, by simp⟩
  intro heq
  have hlast := List.append_cancel_left heq
  exact FileName.canonical_append_ne image.name (by decide) (List.singleton_inj.1 hlast).symm

private theorem objcopy_of_error {arguments : Command} {f : Failure}
    (htool : c.tool "objcopy" = .error f) : c.runTool "objcopy" arguments w = .error f w :=
  Action.bind_of_error (by rw [htool]; rfl)

/-- An edit of the image fails and leaves the files alone, or it renews the image. -/
private theorem objcopy_cases (himage : image.NamesFile) (hrules : w.tools.RenewsCopies)
    (hdir : w.disk.hasDirectory image.parent = true) {tool : Text}
    (htool : c.tool "objcopy" = .ok tool) (arguments : Command) :
    (∃ f, c.runTool "objcopy" (arguments ++ [image.toText]) w =
        .error f (w.started (tool :: (arguments ++ [image.toText])))) ∨
      ∃ shown place d, c.runTool "objcopy" (arguments ++ [image.toText]) w =
          .ok shown { w.started (tool :: (arguments ++ [image.toText])) with disk := d } ∧
        w.disk.locate image = .ok place ∧ Disk.Renewed place w.disk d := by
  have hrun : c.runTool "objcopy" (arguments ++ [image.toText]) w =
      run (tool :: (arguments ++ [image.toText])) w := Action.bind_of_ok (by rw [htool]; rfl)
  obtain ⟨before, -, rfl⟩ := Compiler.tool_eq_ok_iff.1 htool
  rw [hrun]
  refine run_cases ?_ ?_ hdir
  · rw [Command.output?_objcopy, ← List.cons_append, List.getLast?_concat, Option.map_some,
      himage.readBack]
  · intro rule hrule
    exact hrules _ rule hrule (Text.endsWith_append before "objcopy")

private theorem hasDirectory_of_renewed {p : Path} (hr : Disk.Renewed place d d')
    (h : d.hasDirectory p = true) : d'.hasDirectory p = true := by
  obtain ⟨q, hq, hdir⟩ := Disk.hasDirectory_iff.1 h
  have hmono := Disk.locate_mono hr.here (fun q => (hr.directory q).2) hq
  exact Disk.hasDirectory_iff.2 ⟨q, hmono, (hr.directory q).2 hdir⟩

/-- Before the copy the list is written, or was there. -/
private structure Prepared (image : Path) (w w' : World) : Prop where
  disk : w'.disk = w.disk ∨ ∃ place, Listed image w.disk place w'.disk
  tools : w'.tools = w.tools
  commands : w'.commands = w.commands
  above : w'.disk.hasDirectory image.parent = true

private theorem prepared (himage : image.NamesFile) (hlist : Compiler.keepFile image = .ok list)
    {text : String} {b : Bool} (h : writeIfChanged list text w = .ok b w') :
    Prepared image w w' := by
  obtain ⟨place, hplace, hcase⟩ := writeIfChanged_eq_ok h
  obtain ⟨hdir, habove, hbeside⟩ := listed_places himage hlist hplace
  rcases hcase with rfl | ⟨d, rfl, hfile, hr⟩
  · exact ⟨.inl rfl, rfl, rfl, hdir⟩
  · exact ⟨.inr ⟨place, hr, hfile, habove, hbeside⟩, rfl, rfl, hasDirectory_of_renewed hr hdir⟩

variable {source : Path} {names : List String}

/-- What a failed copy leaves: at most the list is new. -/
private theorem copyKeeping_eq_error (himage : image.NamesFile) (hrules : w.tools.RenewsCopies)
    {f : Failure} (h : c.copyKeeping source names image w = .error f w') :
    (w'.disk = w.disk ∨ ∃ place, Listed image w.disk place w'.disk) ∧
      ∃ started, w'.commands = w.commands ++ started ∧ started.length ≤ 1 := by
  have hnone : w.commands = w.commands ++ [] := (List.append_nil _).symm
  unfold Compiler.copyKeeping at h
  cases hlist : Compiler.keepFile image with
  | error f' =>
    rw [Action.bind_of_error (by rw [hlist]; rfl)] at h
    cases h
    exact ⟨.inl rfl, [], hnone, by simp⟩
  | ok list =>
    rw [Action.bind_of_ok (by rw [hlist]; rfl), Action.bind_eq_error_iff] at h
    rcases h with hwrite | ⟨_, w₁, hwrite, h⟩
    · cases writeIfChanged_eq_error (Action.discard_eq_error_iff.1 hwrite)
      exact ⟨.inl rfl, [], hnone, by simp⟩
    · obtain ⟨b, hwrite⟩ := Action.discard_eq_ok_iff.1 hwrite
      have hprep := prepared himage hlist hwrite
      rw [Action.bind_eq_error_iff] at h
      rcases h with hcopy | ⟨_, w₂, hcopy, h⟩
      · have hcopy := Action.discard_eq_error_iff.1 hcopy
        cases htool : c.tool "objcopy" with
        | error f' =>
          rw [objcopy_of_error htool] at hcopy
          cases hcopy
          exact ⟨hprep.disk, [], hprep.commands ▸ hnone, by simp⟩
        | ok tool =>
          have hcases := objcopy_cases himage (hprep.tools ▸ hrules) hprep.above htool
            ["--keep-global-symbols=" ++ list.toText, source.toText]
          rcases hcases with ⟨f', hfail⟩ | ⟨shown, place, d, hok, -⟩
          · cases hfail.symm.trans hcopy
            exact ⟨hprep.disk, [_], congrArg (· ++ [_]) hprep.commands, Nat.le_refl 1⟩
          · cases hok.symm.trans hcopy
      · cases h

/-- A copy that succeeded has renewed the image. -/
private theorem copyKeeping_eq_ok (himage : image.NamesFile) (hrules : w.tools.RenewsCopies)
    {p : Path} (h : c.copyKeeping source names image w = .ok p w') :
    ∃ tool copy place d, c.tool "objcopy" = .ok tool ∧ w'.tools = w.tools ∧
      w'.commands = w.commands ++ [copy] ∧ d.hasDirectory image.parent = true ∧
      d.locate image = .ok place ∧ Disk.Renewed place d w'.disk := by
  unfold Compiler.copyKeeping at h
  obtain ⟨list, w₁, hlift, h⟩ := Action.bind_eq_ok_iff.1 h
  cases hlist : Compiler.keepFile image with
  | error f =>
    rw [hlist] at hlift
    cases hlift
  | ok list =>
    rw [hlist] at hlift
    cases hlift
    obtain ⟨_, w₁, hwrite, h⟩ := Action.bind_eq_ok_iff.1 h
    obtain ⟨b, hwrite⟩ := Action.discard_eq_ok_iff.1 hwrite
    have hprep := prepared himage hlist hwrite
    obtain ⟨_, w₂, hcopy, h⟩ := Action.bind_eq_ok_iff.1 h
    cases h
    obtain ⟨shown, hcopy⟩ := Action.discard_eq_ok_iff.1 hcopy
    cases htool : c.tool "objcopy" with
    | error f =>
      rw [objcopy_of_error htool] at hcopy
      cases hcopy
    | ok tool =>
      have hcases := objcopy_cases himage (hprep.tools ▸ hrules) hprep.above htool
        ["--keep-global-symbols=" ++ list.toText, source.toText]
      rcases hcases with ⟨f, hfail⟩ | ⟨shown, place, d, hok, hplace, hr⟩
      · cases hfail.symm.trans hcopy
      · cases hok.symm.trans hcopy
        exact ⟨tool, _, place, w₁.disk, rfl, hprep.tools, congrArg (· ++ [_]) hprep.commands,
          hprep.above, hplace, hr⟩

/-- A failed renaming leaves the files as they are. -/
private theorem renameSymbols_eq_error (himage : image.NamesFile) (hrules : w.tools.RenewsCopies)
    (hdir : w.disk.hasDirectory image.parent = true) {tool : Text}
    (htool : c.tool "objcopy" = .ok tool) {ending : String} {f : Failure}
    (h : c.renameSymbols image names ending w = .error f w') :
    w'.disk = w.disk ∧ ∃ rename, w'.commands = w.commands ++ [rename] := by
  have h := Action.discard_eq_error_iff.1 h
  rcases objcopy_cases himage hrules hdir htool _ with ⟨f', hfail⟩ | ⟨shown, place, d, hok, -⟩
  · cases hfail.symm.trans h
    exact ⟨rfl, _, rfl⟩
  · cases hok.symm.trans h

variable {loader application linked : SymbolTable} {f : Failure}

/-- A failed generation ends before the image was touched, or between the copy and the renaming. -/
private theorem build_eq_error (himage : image.NamesFile) (hrules : w.tools.RenewsCopies)
    (h : build c source image loader application linked w = .error f w') :
    ((w'.disk = w.disk ∨ ∃ place, Listed image w.disk place w'.disk) ∧
        ∃ started, w'.commands = w.commands ++ started ∧ started.length ≤ 1) ∨
      (∃ copy rename, w'.commands = w.commands ++ [copy, rename]) ∧
        ∃ place d, d.locate image = .ok place ∧ Disk.Renewed place d w'.disk := by
  have hnone : w.commands = w.commands ++ [] := (List.append_nil _).symm
  have hexports := answers_exports loader application linked w
  unfold build at h
  rw [Action.bind_eq_error_iff] at h
  rcases h with hfail | ⟨exported, w₁, hexported, h⟩
  · obtain ⟨-, console, rfl⟩ := hexports.of_error hfail
    exact .inl ⟨.inl rfl, [], hnone, by simp⟩
  · obtain ⟨w₂, hw₂, hsay⟩ := Answers.say Console.normal
      ("Generating ROM elf " ++ image.name ++ " (" ++ toString exported.size ++ " symbols)") (w := w₁)
    obtain ⟨w₃, hw₃, hreport⟩ := Answers.sayAll Console.verbose (exported.report "Exporting")
      (w := w₂)
    rw [Action.bind_of_ok hsay, Action.bind_of_ok hreport, Action.bind_eq_error_iff] at h
    have hspoken : Spoken w w₃ :=
      trans_of Spoken (hexports.of_ok hexported).2 (trans_of Spoken hw₂ hw₃)
    obtain ⟨console, rfl⟩ := hspoken
    rcases h with hcopy | ⟨_, w₄, hcopy, h⟩
    · exact .inl (copyKeeping_eq_error (w := { w with console }) himage hrules
        (Action.discard_eq_error_iff.1 hcopy))
    · obtain ⟨p, hcopy⟩ := Action.discard_eq_ok_iff.1 hcopy
      obtain ⟨tool, copy, place, d, htool, htools, hcommands, hdir, hplace, hr⟩ :=
        copyKeeping_eq_ok (w := { w with console }) himage hrules hcopy
      rw [Action.bind_eq_error_iff] at h
      rcases h with hrename | ⟨_, w₅, -, h⟩
      · obtain ⟨hdisk, rename, hrename⟩ := renameSymbols_eq_error himage (htools ▸ hrules)
          (hasDirectory_of_renewed hr hdir) htool hrename
        refine .inr ⟨⟨copy, rename, ?_⟩, place, d, hplace, hdisk ▸ hr⟩
        rw [hrename, hcommands, List.append_assoc]
        rfl
      · cases h

/-- The image was out of date and its generation failed. It passes for a finished one exactly when
the failure came after the copy, and every input is there with no time to come. -/
theorem reused_after_failure_iff {archives : List Path} {w₁ w₂ : World}
    (himage : image.NamesFile) (htimely : w.disk.Timely) (hrules : w.tools.RenewsCopies)
    (hstale : isLoaderImageStale image source archives w = .ok true w₁)
    (hbuild : build c source image loader application linked w₁ = .error f w₂) :
    (∃ w₃, isLoaderImageStale image source archives w₂ = .ok false w₃) ↔
      (∃ copy rename, w₂.commands = w.commands ++ [copy, rename]) ∧
        ∀ p ∈ source :: archives, ∃ e, w₂.disk.entry p = .ok e ∧ e.time ≤ w₂.disk.clock := by
  obtain ⟨⟨console, rfl⟩, hoverdue⟩ := isStale_eq_true hstale
  have hfresh : (∃ w₃, isLoaderImageStale image source archives w₂ = .ok false w₃) ↔
      w₂.disk.Fresh image (source :: archives) := by
    simp only [isLoaderImageStale, isStale_eq_false_iff, exists_eq_left]
  rw [hfresh]
  rcases build_eq_error (w := { w with console }) himage hrules hbuild with
    ⟨hdisk, started, hcommands, hlength⟩ | ⟨hcommands, place, d, hplace, hr⟩
  · have hstays : ¬ w₂.disk.Fresh image (source :: archives) := by
      rcases hdisk with hsame | ⟨place, hlisted⟩
      · rw [hsame]
        exact hoverdue.not_fresh
      · exact hoverdue.not_fresh_of_renewed htimely hlisted.renewed hlisted.file hlisted.above
          hlisted.beside
    refine iff_of_false hstays ?_
    rintro ⟨⟨copy, rename, htwo⟩, -⟩
    rw [hcommands] at htwo
    rw [List.append_cancel_left htwo] at hlength
    exact Nat.not_succ_le_self 1 hlength
  · rw [Disk.fresh_renewed_iff hr hplace]
    exact (and_iff_right hcommands).symm

/-- A linked loader and an archive, with tools that cannot rename symbols. -/
def failingRename : World where
  disk := ⟨⟨[([], .directory 1), (["l.elf"], .file 1 ""), (["p.a"], .file 1 "")]⟩, 1, 100, []⟩
  tools := ⟨[⟨"--redefine-sym", false, 1, none, some "bad"⟩], []⟩
  buildDirVariable := none
  console := .ofVerbosity 0
  commands := []

def exampleImage : Path := ⟨.relative, ["r.elf"]⟩

def exampleLoader : Path := ⟨.relative, ["l.elf"]⟩

def exampleArchive : Path := ⟨.relative, ["p.a"]⟩

def exampleCheck (w : World) : EStateM.Result Failure World Bool :=
  isLoaderImageStale exampleImage exampleLoader [exampleArchive] w

/-- The image was missing, and its generation fails at the renaming. -/
def exampleBuild : EStateM.Result Failure World SymbolTable :=
  build ⟨.text "", [], []⟩ exampleLoader exampleImage ∅ ∅ ∅ (leaves (exampleCheck failingRename))

private theorem namesFile_exampleImage : exampleImage.NamesFile := ⟨by decide, by decide⟩

private theorem timely_failingRename : failingRename.disk.Timely :=
  Disk.timely_of_entries (by decide)

private theorem renewsCopies_failingRename : failingRename.tools.RenewsCopies := by
  intro c rule hrule _
  have hmem := List.mem_of_find?_eq_some hrule
  cases List.mem_singleton.1 hmem
  exact .inr (by decide)

private theorem exampleCheck_before : answer? (exampleCheck failingRename) = some true := by
  decide +kernel

private theorem exampleBuild_fails : answer? exampleBuild |>.isNone := by
  decide +kernel

private theorem exampleCheck_after : answer? (exampleCheck (leaves exampleBuild)) = some false := by
  decide +kernel

theorem reused_after_failed_rename :
    (∃ copy rename, (leaves exampleBuild).commands = failingRename.commands ++ [copy, rename]) ∧
      ∀ p ∈ [exampleLoader, exampleArchive], ∃ e, (leaves exampleBuild).disk.entry p = .ok e ∧
        e.time ≤ (leaves exampleBuild).disk.clock := by
  obtain ⟨f, hf⟩ := eq_error_of_answer? (Option.isNone_iff_eq_none.1 exampleBuild_fails)
  exact (reused_after_failure_iff namesFile_exampleImage timely_failingRename
    renewsCopies_failingRename (eq_ok_of_answer? exampleCheck_before) hf).1
      ⟨_, eq_ok_of_answer? exampleCheck_after⟩

/-- So a failed generation does not always leave its image out of date. -/
theorem failed_generation_not_always_repeated :
    ¬ ∀ (c : Compiler) (source image : Path) (archives : List Path)
      (loader application linked : SymbolTable) (w w₁ w₂ : World) (f : Failure),
      image.NamesFile → w.disk.Timely → w.tools.RenewsCopies →
      isLoaderImageStale image source archives w = .ok true w₁ →
      build c source image loader application linked w₁ = .error f w₂ →
      ∀ w₃, isLoaderImageStale image source archives w₂ ≠ .ok false w₃ := by
  intro h
  obtain ⟨f, hf⟩ := eq_error_of_answer? (Option.isNone_iff_eq_none.1 exampleBuild_fails)
  exact h _ _ _ _ _ _ _ _ _ _ f namesFile_exampleImage timely_failingRename
    renewsCopies_failingRename (eq_ok_of_answer? exampleCheck_before) hf _
    (eq_ok_of_answer? exampleCheck_after)

end LoaderImage
end DualImage
