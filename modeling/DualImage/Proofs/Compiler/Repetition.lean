import DualImage.Proofs.Compiler.Upkeep

/-! Steps that find their outputs up to date: they start no command and leave the files alone. -/
namespace DualImage.Compiler
open World
variable {c : Compiler} {w : World} {objects : List Path}

private theorem lift_of_ok {α : Type} {r : Except Failure α} {x : α} (h : r = .ok x) :
    lift r w = .ok x w :=
  lift_eq_ok_iff.2 ⟨h, rfl⟩

private theorem ensureDirectories_of_hasDirectory {p : Path}
    (h : w.disk.hasDirectory p = true) : ensureDirectories p w = .ok () w :=
  attempt_of_ok (Disk.ensureDirectories_of_hasDirectory h)

private theorem isStale_of_fresh {output : Path} {inputs : List Path}
    (h : w.disk.Fresh output inputs) : isStale output inputs w = .ok false w :=
  isStale_eq_false_iff.2 ⟨rfl, h⟩

private theorem compileSources_of_fresh {package : Package} {defines : List Document}
    {pairs : List (Path × Path)} (h : ∀ pair ∈ pairs, w.disk.Fresh pair.2 [pair.1]) :
    (pairs.forM fun pair => c.compileSource package defines pair.1 pair.2) w = .ok ⟨⟩ w := by
  induction pairs with
  | nil => rfl
  | cons pair rest ih =>
    obtain ⟨hpair, hrest⟩ := List.forall_mem_cons.1 h
    refine Action.forM_cons_eq_ok_iff.2 ⟨w, ?_, ih hrest⟩
    exact Action.bind_of_ok (isStale_of_fresh hpair)

/-- Nothing is compiled when the objects are as new as their sources. -/
theorem compile_of_fresh {package : Package} {defines : List Document} {objectDir : Path}
    (hobjects : objectPaths? package.sources objectDir = some objects)
    (hdir : w.disk.hasDirectory objectDir = true)
    (hfresh : ∀ pair ∈ package.sources.zip objects, w.disk.Fresh pair.2 [pair.1]) :
    c.compile package objectDir defines w = .ok objects w := by
  refine (Action.bind_of_ok (ensureDirectories_of_hasDirectory hdir)).trans ?_
  refine (Action.bind_of_ok (lift_of_ok (objectPaths_eq_ok_iff.2 hobjects))).trans ?_
  exact Action.bind_of_ok (compileSources_of_fresh hfresh)

/-- Nothing is archived when the archive is as new as its objects. -/
theorem archive_of_fresh {path : Path} (hdir : w.disk.hasDirectory path.parent = true)
    (hfresh : w.disk.Fresh path objects) : c.archive objects path w = .ok path w := by
  refine (Action.bind_of_ok (ensureDirectories_of_hasDirectory hdir)).trans ?_
  exact Action.bind_of_ok (isStale_of_fresh hfresh)

/-- Nothing is linked when the binary is as new as what it was linked of and the record holds the
command already. -/
theorem answers_link_of_fresh {archives symbolFiles : List Path} {script output record : Path}
    {command : Command} (hrecord : beside output ".cmd" = .ok record)
    (hcommand : c.linkCommand archives script output symbolFiles = .ok command)
    (hdir : w.disk.hasDirectory output.parent = true)
    (hrecorded : w.disk.Recorded record (command.text ++ "\n"))
    (hfresh : w.disk.Fresh output (archives ++ symbolFiles ++ [script, record])) :
    Answers Spoken (c.link archives script output symbolFiles) (.ok output) w := by
  have hwrite : writeIfChanged record (command.text ++ "\n") w = .ok false w :=
    attempt_of_ok hrecorded.writeIfChanged
  have hstale := isStale_of_fresh hfresh
  obtain ⟨w', hspoken, hsay⟩ : Answers Spoken
      (say Console.verbose (output.name ++ " is up to date")) (.ok ()) w := .say _ _
  refine ⟨w', hspoken, (Action.bind_of_ok (ensureDirectories_of_hasDirectory hdir)).trans ?_⟩
  refine (Action.bind_of_ok (lift_of_ok hrecord)).trans ?_
  refine (Action.bind_of_ok (lift_of_ok hcommand)).trans ?_
  refine (Action.bind_of_ok (Action.discard_eq_ok_iff.2 ⟨false, hwrite⟩)).trans ?_
  refine (Action.bind_of_ok hstale).trans ?_
  exact Action.bind_of_ok hsay

end DualImage.Compiler
