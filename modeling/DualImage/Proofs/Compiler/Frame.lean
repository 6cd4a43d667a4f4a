import DualImage.Proofs.Workspace.Frame

/-! What compiling, archiving and linking write: their objects, archives and binaries, and nothing
else. -/
namespace DualImage
open World (Spares)

namespace World

theorem words_text_eq_ok {t : Text} {ds : List Document} {ws : Command}
    (h : words (.text t :: ds) = .ok ws) : ∃ us, ws = t :: us ∧ words ds = .ok us := by
  unfold words at h
  rw [List.mapM_cons] at h
  obtain ⟨v, hv, h⟩ := Except.bind_eq_ok_iff.1 h
  obtain ⟨us, hus, h⟩ := Except.bind_eq_ok_iff.1 h
  cases hv
  cases h
  exact ⟨us, rfl, hus⟩

theorem words_eq_ok_append {ds es : List Document} {ws : Command} (h : words (ds ++ es) = .ok ws) :
    ∃ vs us, ws = vs ++ us ∧ words ds = .ok vs ∧ words es = .ok us := by
  unfold words at h
  rw [List.mapM_append] at h
  obtain ⟨vs, hvs, h⟩ := Except.bind_eq_ok_iff.1 h
  obtain ⟨us, hus, h⟩ := Except.bind_eq_ok_iff.1 h
  cases h
  exact ⟨vs, us, rfl, hvs, hus⟩

theorem words_map_text_eq_ok {α : Type} {f : α → Text} {xs : List α} {ws : Command}
    (h : words (xs.map fun x => .text (f x)) = .ok ws) : ws = xs.map f := by
  induction xs generalizing ws with
  | nil =>
    cases h
    rfl
  | cons x rest ih =>
    obtain ⟨us, rfl, hrest⟩ := words_text_eq_ok h
    rw [ih hrest, List.map_cons]

theorem exists_text_of_mem_words {ds : List Document} {ws : Command} {w : Text}
    (h : words ds = .ok ws) (hw : w ∈ ws) : ∃ d ∈ ds, d.text? = some w := by
  induction ds generalizing ws with
  | nil =>
    cases h
    cases hw
  | cons d rest ih =>
    unfold words at h
    rw [List.mapM_cons] at h
    obtain ⟨v, hv, h⟩ := Except.bind_eq_ok_iff.1 h
    obtain ⟨vs, hvs, h⟩ := Except.bind_eq_ok_iff.1 h
    cases h
    rcases List.mem_cons.1 hw with rfl | hw
    · refine ⟨d, List.mem_cons_self, ?_⟩
      split at hv
      · next hd =>
        cases hv
        exact hd
      · cases hv
    · obtain ⟨e, he, hew⟩ := ih hvs hw
      exact ⟨e, List.mem_cons_of_mem _ he, hew⟩

end World

namespace Compiler
variable {c : Compiler} {p : Path}

/-- No flag of the list redirects the output of a compiler. -/
def Undirected (flags : List Document) : Prop := ∀ f ∈ flags, f.text? ≠ some "-o"

private theorem append_ne_output {start tail : Text} (h : start.codes.take 2 ≠ ("-o" : Text).codes)
    (hstart : 2 ≤ start.codes.length) : start ++ tail ≠ "-o" := by
  intro heq
  have hcodes := congrArg (fun t => t.codes.take 2) heq
  simp only [Text.codes_append, List.take_append_of_le_length hstart] at hcodes
  exact h hcodes

/-- The words that a command for compiling starts with. -/
theorem compileCommand_words {package : Package} {defines : List Document}
    {source object : Path} {command : Command}
    (h : c.compileCommand package defines source object = .ok command) :
    ∃ tool rest, c.tool "gcc" = .ok tool ∧ command = tool :: ("-c" : Text) :: rest := by
  obtain ⟨gcc, hgcc, h⟩ := Except.bind_eq_ok_iff.1 h
  obtain ⟨features, -, h⟩ := Except.bind_eq_ok_iff.1 h
  simp only [List.cons_append, List.nil_append] at h
  obtain ⟨_, rfl, hoption⟩ := World.words_text_eq_ok h
  obtain ⟨rest, rfl, -⟩ := World.words_text_eq_ok hoption
  exact ⟨gcc, rest, hgcc, rfl⟩

/-- The words of a command for linking. Behind the flags stand the script, the map, the binaries whose
symbols are taken, and the archives as one group. -/
theorem linkCommand_eq_ok {archives symbolFiles : List Path} {script output : Path}
    {command : Command} (h : c.linkCommand archives script output symbolFiles = .ok command) :
    ∃ gcc flags, c.tool "gcc" = .ok gcc ∧ World.words c.linkFlags = .ok flags ∧
      command = gcc :: "-o" :: output.toText :: (flags ++ ("-T" ++ script.toText) ::
        ("-Wl,-Map=" ++ output.toText ++ ".map") ::
        (symbolFiles.map (fun p => ("-Wl,--just-symbols=" : Text) ++ p.toText) ++
          ("-Wl,--start-group" : Text) ::
          (archives.map Path.toText ++ [("-Wl,--end-group" : Text)]))) := by
  obtain ⟨gcc, hgcc, h⟩ := Except.bind_eq_ok_iff.1 h
  simp only [List.append_assoc, List.cons_append, List.nil_append] at h
  obtain ⟨_, rfl, hoption⟩ := World.words_text_eq_ok h
  obtain ⟨_, rfl, htarget⟩ := World.words_text_eq_ok hoption
  obtain ⟨_, rfl, hrest⟩ := World.words_text_eq_ok htarget
  obtain ⟨flags, _, rfl, hflags, hscript⟩ := World.words_eq_ok_append hrest
  obtain ⟨_, rfl, hmap⟩ := World.words_text_eq_ok hscript
  obtain ⟨_, rfl, hoperands⟩ := World.words_text_eq_ok hmap
  obtain ⟨_, _, rfl, hfiles, hstart⟩ := World.words_eq_ok_append hoperands
  obtain ⟨_, rfl, hgroup⟩ := World.words_text_eq_ok hstart
  obtain ⟨_, _, rfl, harchives, hend⟩ := World.words_eq_ok_append hgroup
  obtain rfl := World.words_map_text_eq_ok hfiles
  obtain rfl := World.words_map_text_eq_ok harchives
  cases hend
  exact ⟨gcc, flags, hgcc, hflags, rfl⟩

/-- The compiler writes the object that its last words name. -/
theorem output?_of_compileCommand {package : Package} {defines : List Document}
    {source object : Path} {command : Command} (hc : Undirected c.compileFlags)
    (hpackage : Undirected package.flags) (hobject : object.Plain)
    (h : c.compileCommand package defines source object = .ok command) :
    command.output? = some object := by
  obtain ⟨gcc, hgcc, h⟩ := Except.bind_eq_ok_iff.1 h
  obtain ⟨features, -, h⟩ := Except.bind_eq_ok_iff.1 h
  obtain ⟨before, -, rfl⟩ := tool_eq_ok_iff.1 hgcc
  obtain ⟨front, last, rfl, hfront, hlast⟩ := World.words_eq_ok_append h
  obtain ⟨_, rfl, hobject'⟩ := World.words_text_eq_ok hlast
  obtain ⟨_, rfl, hsource⟩ := World.words_text_eq_ok hobject'
  simp only [List.cons_append, List.nil_append] at hfront
  obtain ⟨front, rfl, hflags⟩ := World.words_text_eq_ok hfront
  rw [List.cons_append, Command.output?_gcc, hobject.readBack]
  intro hmem
  obtain ⟨d, hd, htext⟩ := World.exists_text_of_mem_words hflags hmem
  simp only [List.mem_cons, List.mem_append, List.mem_map] at hd
  rcases hd with rfl | ((hd | hd) | ⟨dir, -, rfl⟩) | ⟨s, -, rfl⟩
  · exact absurd htext (by decide)
  · exact hc d hd htext
  · exact hpackage d hd htext
  · exact append_ne_output (by decide) (by decide) (Option.some.inj htext)
  · exact append_ne_output (by decide) (by decide) (Option.some.inj htext)

/-- A linker writes the binary that its first words name. -/
theorem output?_of_linkCommand {archives symbolFiles : List Path} {script output : Path}
    {command : Command} (houtput : output.Plain)
    (h : c.linkCommand archives script output symbolFiles = .ok command) :
    command.output? = some output := by
  obtain ⟨_, flags, hgcc, -, rfl⟩ := linkCommand_eq_ok h
  obtain ⟨before, -, rfl⟩ := tool_eq_ok_iff.1 hgcc
  have hfront : ("-o" : Text) ∉ ([] : List Text) := List.not_mem_nil
  exact (Command.output?_gcc hfront).trans (congrArg some houtput.readBack)

private theorem keeps_compileSource {package : Package} {defines : List Document}
    {source object : Path} (hc : Undirected c.compileFlags) (hpackage : Undirected package.flags)
    (hplain : object.Plain) (hmisses : object.Misses p) :
    Keeps (Spares p) (c.compileSource package defines source object) := by
  refine (Keeps.isStale object [source]).bind fun stale => ?_
  cases stale with
  | false => exact .pure ()
  | true =>
    refine (Keeps.say _ _).bind fun _ => Keeps.lift_bind fun command hcommand => ?_
    refine Keeps.discard (Keeps.run ?_)
    intro q hq
    rw [output?_of_compileCommand hc hpackage hplain hcommand] at hq
    cases hq
    exact hmisses

theorem objectPaths_eq_ok_iff {sources objects : List Path} {objectDir : Path} :
    objectPaths sources objectDir = .ok objects ↔ objectPaths? sources objectDir = some objects := by
  unfold objectPaths
  cases objectPaths? sources objectDir <;> simp [pure, Except.pure, throw, throwThe,
    MonadExceptOf.throw]

/-- Compiling a package keeps clear of what its objects and their directory keep clear of. -/
theorem keeps_compile {package : Package} {objectDir : Path} {defines : List Document}
    (hc : Undirected c.compileFlags) (hpackage : Undirected package.flags)
    (hdir : objectDir.Misses p)
    (hobjects : ∀ objects, objectPaths? package.sources objectDir = some objects →
      ∀ object ∈ objects, object.Plain ∧ object.Misses p) :
    Keeps (Spares p) (c.compile package objectDir defines) := by
  refine (Keeps.ensureDirectories hdir).bind fun _ => Keeps.lift_bind fun objects h => ?_
  have hsome := objectPaths_eq_ok_iff.1 h
  refine Keeps.bind (Keeps.forM ?_) fun _ => .pure objects
  rintro ⟨source, object⟩ hmem
  obtain ⟨hplain, hmisses⟩ := hobjects objects hsome object (List.of_mem_zip hmem).2
  exact keeps_compileSource hc hpackage hplain hmisses

theorem keeps_archive {objects : List Path} {path : Path} (hplain : path.Plain)
    (hmisses : path.Misses p) : Keeps (Spares p) (c.archive objects path) := by
  refine (Keeps.ensureDirectories hmisses.parent).bind fun _ =>
    (Keeps.isStale path objects).bind fun stale => ?_
  have hrun : Keeps (Spares p)
      (discard (c.runTool "ar" ("rcs" :: path.toText :: objects.map Path.toText)) : Action Unit) := by
    refine Keeps.discard (Keeps.lift_bind fun tool htool => Keeps.run ?_)
    intro q hq
    obtain ⟨before, -, rfl⟩ := tool_eq_ok_iff.1 htool
    rw [Command.output?_ar] at hq
    cases hq
    rw [hplain.readBack]
    exact hmisses
  cases stale with
  | false => exact .pure path
  | true =>
    have hrest := (Keeps.say (p := p) Console.normal ("Archiving " ++ path.name)).bind fun _ =>
      hrun.bind fun _ => .pure path
    refine Keeps.get.bind fun w => Keeps.ite (Keeps.bind (Keeps.change ?_) fun _ => hrest) hrest
    intro w d hd
    exact ⟨Disk.spares_delete hmisses hd, rfl⟩

/-- Linking writes its binary and, beside it, the record of the command. -/
theorem keeps_link {archives symbolFiles : List Path} {script output : Path} (hplain : output.Plain)
    (hmisses : output.Misses p)
    (hrecord : ∀ record, beside output ".cmd" = .ok record → record.Misses p) :
    Keeps (Spares p) (c.link archives script output symbolFiles) := by
  refine (Keeps.ensureDirectories hmisses.parent).bind fun _ =>
    Keeps.lift_bind fun record hbeside => Keeps.lift_bind fun command hcommand => ?_
  refine (Keeps.discard (Keeps.writeIfChanged (hrecord record hbeside) _)).bind fun _ =>
    (Keeps.isStale output _).bind fun stale => ?_
  cases stale with
  | false => exact (Keeps.say _ _).bind fun _ => .pure output
  | true =>
    refine (Keeps.say _ _).bind fun _ => (Keeps.discard (Keeps.run ?_)).bind fun _ => .pure output
    intro q hq
    rw [output?_of_linkCommand hplain hcommand] at hq
    cases hq
    exact hmisses

end Compiler
end DualImage
