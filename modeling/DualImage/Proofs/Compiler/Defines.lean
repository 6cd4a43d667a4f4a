import DualImage.Proofs.Compiler.Frame

/-! The features that a command for compiling defines: those that it is given, and what its flags
say. -/
namespace DualImage
open World (words)

namespace Command

/-- An option defines the feature. The last word of a command for compiling is its source. -/
def Defines (feature : String) (c : Command) : Prop :=
  ("-D" : Text) ++ (feature : Text) ∈ c.dropLast

instance (feature : String) (c : Command) : Decidable (c.Defines feature) := by
  unfold Defines
  infer_instance

end Command

namespace Compiler
variable {c : Compiler} {package : Package} {defines : List Document} {source object : Path}
  {command : Command}

/-- Flags, directories and features stand between the words that a command for compiling starts with
and those that it ends in. -/
private theorem compileCommand_parts
    (h : c.compileCommand package defines source object = .ok command) :
    ∃ tool features front, c.tool "gcc" = .ok tool ∧ defines.mapM (·.shown) = .ok features ∧
      words (c.compileFlags ++ package.flags ++
        package.includeDirs.map (fun dir => .text ("-I" ++ dir.toText)) ++
        features.map (fun s => .text ("-D" ++ s))) = .ok front ∧
      command = (tool :: ("-c" : Text) :: (front ++ [("-o" : Text), object.toText])) ++
        [source.toText] := by
  obtain ⟨tool, htool, h⟩ := Except.bind_eq_ok_iff.1 h
  obtain ⟨features, hfeatures, h⟩ := Except.bind_eq_ok_iff.1 h
  obtain ⟨first, last, rfl, hfirst, hlast⟩ := World.words_eq_ok_append h
  cases hlast
  simp only [List.cons_append, List.nil_append] at hfirst
  obtain ⟨_, rfl, hoption⟩ := World.words_text_eq_ok hfirst
  obtain ⟨front, rfl, hfront⟩ := World.words_text_eq_ok hoption
  refine ⟨tool, features, front, htool, hfeatures, hfront, ?_⟩
  simp

section
variable (h : c.compileCommand package defines source object = .ok command)
include h

/-- A feature that is given is defined. -/
theorem defines_of_compileCommand {d : Document} {feature : String} (hd : d ∈ defines)
    (hshown : d.shown = .ok (feature : Text)) : command.Defines feature := by
  obtain ⟨tool, features, front, -, hfeatures, hfront, rfl⟩ := compileCommand_parts h
  obtain ⟨t, ht, heq⟩ := (Except.mem_of_mapM_eq_ok hfeatures).1 d hd
  rw [hshown] at heq
  cases heq
  obtain ⟨word, hword, htext⟩ := (Except.mem_of_mapM_eq_ok hfront).1 (.text ("-D" ++ feature))
    (List.mem_append_right _ (List.mem_map_of_mem ht))
  cases htext
  rw [Command.Defines, List.dropLast_concat]
  exact List.mem_cons_of_mem _ (List.mem_cons_of_mem _ (List.mem_append_left _ hword))

/-- The application's feature is not defined unless it is given or a flag says so. -/
theorem given_of_defines (hobject : object.Plain)
    (hname : object.name.codes.getLast? = some (.character 'o'))
    (hdefines : command.Defines "SPLIT_APPLICATION") :
    (∃ d ∈ defines, d.shown = .ok "SPLIT_APPLICATION") ∨
      ∃ flag ∈ c.compileFlags ++ package.flags, flag.text? = some "-DSPLIT_APPLICATION" := by
  have hword : ("-D" : Text) ++ ("SPLIT_APPLICATION" : Text) = "-DSPLIT_APPLICATION" := rfl
  obtain ⟨tool, features, front, htool, hfeatures, hfront, rfl⟩ := compileCommand_parts h
  rw [Command.Defines, List.dropLast_concat, hword] at hdefines
  simp only [List.mem_cons, List.mem_append, List.not_mem_nil, or_false] at hdefines
  rcases hdefines with htool' | hoption | hfront' | houtput | hobject'
  · have hend := endsWith_of_tool htool
    rw [← htool'] at hend
    exact absurd hend (by decide)
  · exact absurd hoption (by decide)
  · obtain ⟨d, hd, htext⟩ := World.exists_text_of_mem_words hfront hfront'
    simp only [List.mem_append, List.mem_map] at hd
    rcases hd with (hflag | ⟨dir, -, rfl⟩) | ⟨s, hs, rfl⟩
    · exact .inr ⟨d, List.mem_append.2 hflag, htext⟩
    · have hsecond : some (CodePoint.character 'I') = some (.character 'D') :=
        congrArg (fun t : Text => t.codes[1]?) (Option.some.inj htext)
      exact absurd hsecond (by decide)
    · obtain ⟨given, hgiven, hshown⟩ := (Except.mem_of_mapM_eq_ok hfeatures).2 s hs
      rw [Document.text?_text, Option.some.injEq, ← hword] at htext
      have hsame : s = "SPLIT_APPLICATION" :=
        congrArg Text.mk (List.append_cancel_left (congrArg Text.codes htext))
      exact .inl ⟨given, hgiven, hsame ▸ hshown⟩
  · exact absurd houtput (by decide)
  · rw [← hobject.readBack, ← hobject'] at hname
    exact absurd hname (by decide)

end

end Compiler
end DualImage
