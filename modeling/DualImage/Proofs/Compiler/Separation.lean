import DualImage.Proofs.Compiler.Course
import DualImage.Proofs.Compiler.Leaving
import DualImage.Proofs.Compiler.Withholding

/-! Sources with objects of their own: none of them is passed over because the object of another one is
up to date. -/
namespace DualImage

namespace Disk
variable {d d' : Disk} {source object : Path} {S : Place → Prop}

/-- The source is there, and no object as new as it is. -/
def Wanting (d : Disk) (source object : Path) : Prop :=
  ∃ time, d.Dates source time ∧ ∀ made text,
    d.files.file? (object.place d.here) = some (made, text) → made < time

namespace Wanting
variable (h : d.Wanting source object)
include h

theorem of_leaving (hleaving : Leaving S d d') (hsource : S (source.place d.here))
    (hobject : S (object.place d.here)) : d'.Wanting source object := by
  obtain ⟨time, htime, hmade⟩ := h
  refine ⟨time, hleaving.dates hsource htime, fun made text hfile => hmade made text ?_⟩
  rw [hleaving.here, hleaving.file _ hobject] at hfile
  exact hfile

theorem not_fresh (hfile : ¬ d.files.IsDirectory (object.place d.here)) :
    ¬ d.Fresh object [source] := by
  rintro ⟨e, he, hinputs⟩
  obtain ⟨time, ⟨text, hs⟩, hmade⟩ := h
  obtain ⟨i, hi, hle⟩ := hinputs source (List.mem_singleton_self source)
  obtain ⟨made, text', ho⟩ := hasFile_of_not_isDirectory he hfile
  rw [hs] at hi
  rw [ho] at he
  cases hi
  cases he
  obtain ⟨place, hplace, hfind⟩ := entry_eq_ok_iff.1 ho
  have hthere : d.files.file? (object.place d.here) = some (made, text') := by
    rw [← eq_place_of_locate hplace, FileTree.file?, hfind]
    rfl
  exact absurd (hmade made text' hthere) (Int.not_lt.2 hle)

end Wanting
end Disk

namespace Compiler
variable {c : Compiler} {package : Package} {defines : List Document} {sources objects : List Path}
  {source object objectDir : Path} {w w' : World}

/-- The objects lie in places of their own, away from the sources. -/
structure Separate (here : Place) (sources objects : List Path) : Prop where
  distinct : (objects.map (·.place here)).Nodup
  away : ∀ source ∈ sources, ∀ object ∈ objects, object.place here ≠ source.place here

/-- The commands of the package write the objects that they are for. -/
def WritesObjects (c : Compiler) (package : Package) (defines : List Document) (objects : List Path) :
    Prop :=
  ∀ object ∈ objects, ∀ source command,
    c.compileCommand package defines source object = .ok command → command.output? = some object

theorem writesObjects_of_undirected (hflags : Undirected c.compileFlags)
    (hpackage : Undirected package.flags) (hdir : objectDir.Plain)
    (hsources : ∀ s ∈ package.sources, s.Plain)
    (hobjects : objectPaths? package.sources objectDir = some objects) :
    c.WritesObjects package defines objects := by
  intro object ho source command hcommand
  obtain ⟨stem, -, -, rfl⟩ := exists_stem_of_objectPaths hsources hobjects ho
  exact output?_of_compileCommand hflags hpackage (hdir.child _) hcommand

private theorem of_compileSources {C : Command → Prop} {A B : Path → Prop} {R : World → World → Prop}
    [IsPreorder World R] (h : Conduct C A B R) {pairs : List (Path × Path)}
    (hC : ∀ pair ∈ pairs, ∀ command,
      c.compileCommand package defines pair.1 pair.2 = .ok command → C command)
    (hr : (pairs.forM fun pair => c.compileSource package defines pair.1 pair.2) w = .ok ⟨⟩ w') :
    R w w' :=
  (Obeys.forM (P := Failure.Technical) fun pair hpair _ _ => h.compileSource (hC pair hpair)).ok hr

/-- The same, counted from the compilation's first state on. -/
private theorem of_compileFront {C : Command → Prop} {A B : Path → Prop} {R : World → World → Prop}
    [IsPreorder World R] (h : Conduct C A B R) {pairs : List (Path × Path)} {w₁ : World}
    (hC : ∀ pair ∈ pairs, ∀ command,
      c.compileCommand package defines pair.1 pair.2 = .ok command → C command)
    (hdirectories : World.ensureDirectories objectDir w = .ok () w₁)
    (hr : (pairs.forM fun pair => c.compileSource package defines pair.1 pair.2) w₁ = .ok ⟨⟩ w') :
    R w w' :=
  trans_of R ((h.directories objectDir).ok hdirectories) (of_compileSources h hC hr)

/-- The turn of a source ends at once if its object is fresh, and else its command is run. -/
private theorem turn_cases (hr : c.compileSource package defines source object w = .ok () w') :
    w.disk.Fresh object [source] ∨ ∃ command,
      c.compileCommand package defines source object = .ok command ∧
      w'.commands = w.commands ++ [command] := by
  obtain ⟨stale, v, hstale, hrun⟩ := compileSource_steps hr
  cases stale with
  | false => exact .inl (World.isStale_eq_false_iff.1 hstale).2
  | true =>
    obtain ⟨command, v', shown, hcommand, hsaid, hrun⟩ := hrun
    obtain ⟨console, rfl⟩ := trans_of Spoken (World.isStale_eq_ok hstale) hsaid
    have hcommands := World.commands_of_run hrun
    exact .inr ⟨command, hcommand, hcommands⟩

private theorem prefix_of_withholds (h : World.Withholds (fun _ => True) [] w w')
    (hw : w.disk.Grounded) : w.commands <+: w'.commands := by
  obtain ⟨started, hcommands, -⟩ := (h hw).started
  exact ⟨started, hcommands.symm⟩

/-- Objects before a given one lie in other places than the object and its source. -/
private theorem place_ne_of_separate {here : Place} (hseparate : Separate here sources objects)
    (hlength : objects.length ≤ sources.length) {front back : List (Path × Path)}
    (hzip : sources.zip objects = front ++ (source, object) :: back) :
    ∀ pair ∈ front, pair.2 ∈ objects ∧
      ¬ (pair.2.place here = object.place here ∨ pair.2.place here = source.place here) := by
  have hmem {pair : Path × Path} (h : pair ∈ front ++ (source, object) :: back) :
      pair.1 ∈ sources ∧ pair.2 ∈ objects := List.of_mem_zip (hzip ▸ h)
  have hdistinct := hseparate.distinct
  rw [← List.map_snd_zip hlength, hzip, List.map_map, List.map_append, List.nodup_append] at hdistinct
  intro pair hpair
  have hobject := (hmem (List.mem_append_left _ hpair)).2
  refine ⟨hobject, not_or.2 ⟨?_, ?_⟩⟩
  · exact hdistinct.2.2 _ (List.mem_map_of_mem hpair) _ (List.mem_map_of_mem List.mem_cons_self)
  · exact hseparate.away _ (hmem (List.mem_append_right _ List.mem_cons_self)).1 _ hobject

/-- With separate objects, each source is compiled whose object is wanting. -/
theorem ran_of_compile (hwrites : c.WritesObjects package defines objects)
    (hseparate : Separate w.disk.here package.sources objects) (hw : w.disk.Grounded)
    (hr : c.compile package objectDir defines w = .ok objects w')
    (hmem : (source, object) ∈ package.sources.zip objects) (hwanting : w.disk.Wanting source object)
    (hfile : ¬ w'.disk.files.IsDirectory (object.place w.disk.here)) :
    World.Ran (fun command => c.compileCommand package defines source object = .ok command) w w' := by
  obtain ⟨hobjects, w₁, hdirectories, hcompile⟩ := compile_steps hr
  obtain ⟨front, back, hzip⟩ := List.append_of_mem hmem
  rw [hzip] at hcompile
  obtain ⟨t, hfront, hrest⟩ := Action.forM_append_eq_ok_iff.1 hcompile
  obtain ⟨t', hsource, hback⟩ := Action.forM_cons_eq_ok_iff.1 hrest
  let S (place : Place) : Prop :=
    place = object.place w.disk.here ∨ place = source.place w.disk.here
  have haway := place_ne_of_separate hseparate (Nat.le_of_eq (length_of_objectPaths hobjects)) hzip
  -- up to its own turn, nothing happens to the object and its source
  have hleaving : Disk.Leaving S w.disk t.disk := by
    have hconduct := World.conduct_leaving w.disk.here S
    refine of_compileFront hconduct (fun pair hpair command hcommand p hp => ?_) hdirectories hfront
      hw rfl
    obtain ⟨hobject, hne⟩ := haway pair hpair
    rw [hwrites pair.2 hobject pair.1 command hcommand] at hp
    cases hp
    exact hne
  have hfile' : ¬ t.disk.files.IsDirectory (object.place t.disk.here) := by
    have hconduct := World.conduct_leaving t.disk.here fun _ => False
    have hlater := of_compileSources hconduct (fun _ _ _ _ _ _ => id) hrest
      hleaving.grounded rfl
    rw [hleaving.here]
    exact fun hdir => hfile (hlater.directory _ hdir)
  rcases turn_cases hsource with hfresh | ⟨command, hcommand, hcommands⟩
  · exact absurd hfresh ((hwanting.of_leaving hleaving (.inr rfl) (.inl rfl)).not_fresh hfile')
  · have hconduct := World.conduct_withholds (fun _ => True) []
    have hC : ∀ c : Command, True ∧ c.ClearOf [] := fun _ => ⟨trivial, fun _ _ h => by cases h⟩
    have hbefore : World.Withholds (fun _ => True) [] w t :=
      of_compileFront hconduct (fun _ _ command _ => hC command) hdirectories hfront
    have hturn : World.Withholds (fun _ => True) [] t t' :=
      (hconduct.compileSource fun command _ => hC command).ok hsource
    have hafter := of_compileSources hconduct (fun _ _ command _ => hC command) hback
    obtain ⟨earlier, hearlier⟩ := prefix_of_withholds hbefore hw
    obtain ⟨later, hlater⟩ := prefix_of_withholds hafter (hturn (hbefore hw).grounded).grounded
    refine ⟨earlier ++ command :: later, ?_, command, by simp, hcommand⟩
    rw [← hlater, hcommands, ← hearlier]
    simp

/-- Objects are different paths exactly if no two sources have the same pieces, and different paths lead
to different places. Where no object takes the place of a source either, compiling passes over no source
whose object is wanting. -/
theorem distinct_objects (hsources : ∀ s ∈ sources, s.Plain)
    (hobjects : objectPaths? sources objectDir = some objects) :
    (objects.Nodup ↔ sources.Pairwise fun a b =>
      (below? sources a).map objectPieces ≠ (below? sources b).map objectPieces) ∧
    ((∀ s ∈ sources, ∀ part ∈ s.parts, ∃ t : String, part = t) → objects.Nodup →
      ∀ here, (objects.map (·.place here)).Nodup) ∧
    ∀ (c : Compiler) (package : Package) (defines : List Document) (w w' : World),
      package.sources = sources → Undirected c.compileFlags → Undirected package.flags →
      objectDir.Plain → Separate w.disk.here sources objects → w.disk.Grounded →
      c.compile package objectDir defines w = .ok objects w' →
      ∀ pair ∈ sources.zip objects, w.disk.Wanting pair.1 pair.2 →
        ¬ w'.disk.files.IsDirectory (pair.2.place w.disk.here) →
        World.Ran (fun command => c.compileCommand package defines pair.1 pair.2 = .ok command)
          w w' := by
  refine ⟨nodup_objects_iff hsources hobjects, fun hstrings => ?_, ?_⟩
  · exact nodup_places hsources hstrings hobjects
  · rintro c package defines w w' rfl hflags hpackage hdir hseparate hw hr pair hmem hwanting hfile
    have hwrites : c.WritesObjects package defines objects :=
      writesObjects_of_undirected hflags hpackage hdir hsources hobjects
    exact ran_of_compile hwrites hseparate hw hr hmem hwanting hfile

/-- Two sources, one of them in a directory, that have not been compiled. -/
def uncompiled (source directory inner : String) : World where
  disk := ⟨⟨[([], .directory 1), ([source], .file 1 ""), ([directory], .directory 1),
    ([directory, inner], .file 1 "")]⟩, 1, 100, []⟩
  tools := ⟨[], []⟩
  buildDirVariable := none
  console := .ofVerbosity 0
  commands := []

def sourcesOf (source directory inner : String) : List Path :=
  [⟨.relative, [source]⟩, ⟨.relative, [directory, inner]⟩]

/-- Their compilation, with objects in a directory of their own. -/
def compilation (source directory inner : String) : EStateM.Result Failure World (List Path) :=
  compile ⟨.text "", [], []⟩ ⟨.text "p", sourcesOf source directory inner, [], []⟩
    ⟨.relative, ["o"]⟩ [] (uncompiled source directory inner)

theorem distinct_objects_nested :
    answer? (compilation "a.c" "d" "b.c") =
        some [⟨.relative, ["o", "a.o"]⟩, ⟨.relative, ["o", "d_b.o"]⟩] ∧
      World.Ran (fun command => compileCommand ⟨.text "", [], []⟩
          ⟨.text "p", sourcesOf "a.c" "d" "b.c", [], []⟩ [] ⟨.relative, ["d", "b.c"]⟩
          ⟨.relative, ["o", "d_b.o"]⟩ = .ok command)
        (uncompiled "a.c" "d" "b.c") (leaves (compilation "a.c" "d" "b.c")) := by
  have hanswer : answer? (compilation "a.c" "d" "b.c") =
      some [⟨.relative, ["o", "a.o"]⟩, ⟨.relative, ["o", "d_b.o"]⟩] := by
    decide +kernel
  have hsources : ∀ s ∈ sourcesOf "a.c" "d" "b.c", s.Plain := by decide
  have hobjects : objectPaths? (sourcesOf "a.c" "d" "b.c") ⟨.relative, ["o"]⟩ =
      some [⟨.relative, ["o", "a.o"]⟩, ⟨.relative, ["o", "d_b.o"]⟩] := by
    decide +kernel
  obtain ⟨hdistinct, hplaces, hran⟩ := distinct_objects hsources hobjects
  refine ⟨hanswer, hran _ _ _ _ _ rfl (by simp [Undirected]) (by simp [Undirected])
    (by decide) ⟨?_, by decide +kernel⟩ (by decide +kernel)
    (eq_ok_of_answer? hanswer) (⟨.relative, ["d", "b.c"]⟩, ⟨.relative, ["o", "d_b.o"]⟩) (by decide)
    ⟨1, ⟨"", rfl⟩, fun _ _ h => by cases h⟩ ?_⟩
  · refine hplaces ?_ (hdistinct.2 (by decide +kernel)) _
    simp only [sourcesOf, List.forall_mem_cons, List.not_mem_nil, false_implies, implies_true, and_true]
    exact ⟨⟨_, rfl⟩, ⟨_, rfl⟩, ⟨_, rfl⟩⟩
  · rw [FileTree.isDirectory_iff]
    decide +kernel

/-- An underscore in a name stands for a slash in another: two sources have one object, and only the
first of them is compiled. -/
theorem second_source_passed_over :
    (sourcesOf "b_c.c" "b" "c.c").Nodup ∧
      answer? (compilation "b_c.c" "b" "c.c") =
        some [⟨.relative, ["o", "b_c.o"]⟩, ⟨.relative, ["o", "b_c.o"]⟩] ∧
      (leaves (compilation "b_c.c" "b" "c.c")).commands =
        [(["gcc", "-c", "-o", "o/b_c.o", "b_c.c"] : List Text)] := by
  decide +kernel

end Compiler
end DualImage
