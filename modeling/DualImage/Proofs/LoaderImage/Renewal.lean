import DualImage.LoaderImage.Build
import DualImage.Proofs.Half.Frame
import DualImage.Proofs.LoaderImage.Exports

/-! The loader image gets a new time only where the symbols of the two halves were compared without
a conflict. -/
namespace DualImage

namespace World
variable {p : Path} {P : Prop}

/-- What the path leads to is the same, or the condition holds and it is new. -/
structure Renews (p : Path) (P : Prop) (w w' : World) : Prop where
  here : w'.disk.here = w.disk.here
  tools : w'.tools = w.tools
  clock : w.disk.clock ≤ w'.disk.clock
  entry : w'.disk.files.find? (p.place w.disk.here) = w.disk.files.find? (p.place w.disk.here) ∨
    P ∧ ∃ e, w'.disk.files.find? (p.place w.disk.here) = some e ∧
      w.disk.clock < e.time ∧ e.time ≤ w'.disk.clock

instance : IsPreorder World (Renews p P) where
  refl _ := ⟨rfl, rfl, Int.le_refl _, .inl rfl⟩
  trans w₁ w₂ w₃ h h' := by
    refine ⟨h'.here.trans h.here, h'.tools.trans h.tools, Int.le_trans h.clock h'.clock, ?_⟩
    have hentry := h'.entry
    rw [h.here] at hentry
    rcases hentry with hsame | ⟨hP, e, he, hlt, hle⟩
    · rw [hsame]
      rcases h.entry with hfirst | ⟨hP, e, he, hlt, hle⟩
      · exact .inl hfirst
      · exact .inr ⟨hP, e, he, hlt, Int.le_trans hle h'.clock⟩
    · exact .inr ⟨hP, e, he, Int.lt_of_le_of_lt h.clock hlt, hle⟩

theorem Spares.renews {w w' : World} (h : Spares p w w') : Renews p P w w' :=
  ⟨h.disk.here, h.tools, h.disk.clock, .inl h.disk.entry⟩

theorem Renews.imp {Q : Prop} {w w' : World} (h : Renews p P w w') (hPQ : P → Q) :
    Renews p Q w w' :=
  ⟨h.here, h.tools, h.clock, h.entry.imp_right fun ⟨hP, he⟩ => ⟨hPQ hP, he⟩⟩

end World

namespace Keeps
open World (Spares Renews)
variable {p : Path} {P : Prop} {c : Command}

theorem renews_of_spares {α : Type} {a : Action α} (h : Keeps (Spares p) a) :
    Keeps (Renews p P) a :=
  h.mono fun _ _ => Spares.renews

private theorem renew_renews (hP : P) (hparent : p.parent.Misses p) :
    Keeps (Renews p P) (World.renew c p) := by
  refine (renews_of_spares (failingAs (ensureDirectories hparent))).bind fun _ =>
    failingAs (change fun w d hd => ?_)
  obtain ⟨place, hplace, hr⟩ := Disk.touch_eq_ok hd
  obtain rfl := Disk.eq_place_of_locate hplace
  obtain ⟨e, he, htime⟩ := hr.entry
  have hclock : w.disk.clock < d.clock := hr.clock ▸ Int.lt_succ _
  exact ⟨hr.here, rfl, Int.le_of_lt hclock, .inr ⟨hP, e, he, htime ▸ hclock, Int.le_of_eq htime⟩⟩

/-- A command that writes where the path leads. -/
theorem run_renews (hP : P) (hc : c.output? = some p) (hparent : p.parent.Misses p) :
    Keeps (Renews p P) (World.run c) := by
  intro w
  have hstarted : Renews p P w (w.started c) := ((w.unmoved_started c).spares).renews
  cases hrule : w.tools.rule? c with
  | some rule =>
    rw [World.run_eq_reply (.inr (by simp [hrule]))]
    cases w.tools.reply c <;> exact hstarted
  | none =>
    rw [World.run_eq_renew hrule hc]
    exact trans_of (Renews p P) hstarted (((renew_renews hP hparent).bind fun _ => .pure _) _)

end Keeps

namespace LoaderImage
open World
variable {h : Half}

private theorem keepFile_misses (hh : h.Orderly) (hname : h.name = "loader") {list : Path}
    (hlist : Compiler.keepFile h.loaderImage = .ok list) :
    list.Misses (Half.imagePath h.buildDir) := by
  obtain ⟨-, rfl⟩ := Compiler.beside_eq_ok hlist
  have himage : h.loaderImage = h.directory.child "loader_rom.elf" := by
    rw [Half.loaderImage, hname]
    rfl
  have hcanonical : FileName.canonical ("loader_rom.elf.keep" : Text) ≠ "loader_rom.elf" := by
    rw [FileName.canonical_ofString]
    decide
  have hmisses := Half.misses_below hh (by decide) (by decide) hcanonical
  rw [Path.child_of_isPart (by decide)] at hmisses
  rw [himage, Path.child_of_isPart (by decide), List.dropLast_concat, Path.name,
    List.getLast?_concat]
  exact hmisses

section
variable (hh : h.Orderly) (hname : h.name = "loader") {P : Prop} (hP : P)
include hh hname hP

private theorem keeps_edit (c : Compiler) (arguments : Command) :
    Keeps (Renews (Half.imagePath h.buildDir) P)
      (c.runTool "objcopy" (arguments ++ [h.loaderImage.toText])) := by
  refine Keeps.lift_bind fun tool htool => Keeps.run_renews hP ?_ ?_
  · obtain ⟨before, -, rfl⟩ := Compiler.tool_eq_ok_iff.1 htool
    rw [Command.output?_objcopy, ← List.cons_append, List.getLast?_concat, Option.map_some,
      Half.loaderImage_eq hname]
    exact congrArg some ((hh.plain.child _).child _).readBack
  · exact Half.misses_parent_imagePath hh

private theorem keeps_copyKeeping (c : Compiler) (source : Path) (names : List String) :
    Keeps (Renews (Half.imagePath h.buildDir) P) (c.copyKeeping source names h.loaderImage) := by
  refine Keeps.lift_bind fun list hlist => ?_
  have hmisses := keepFile_misses hh hname hlist
  refine (Keeps.writeIfChanged hmisses _).renews_of_spares.discard.bind fun _ => ?_
  have hedit := keeps_edit hh hname hP c ["--keep-global-symbols=" ++ list.toText, source.toText]
  exact hedit.discard.bind fun _ => .pure _

end

/-- Making the loader image renews it only after a comparison without a conflict. -/
theorem keeps_build (hh : h.Orderly) (hname : h.name = "loader") (c : Compiler) (source : Path)
    (loader application linked : SymbolTable) :
    Keeps (Renews (Half.imagePath h.buildDir) ((loader.compare true application).conflicts = []))
      (build c source h.loaderImage loader application linked) := by
  have hexports (w : World) := answers_exports loader application linked w
  refine Keeps.bind_of_ok (Answers.keeps_of_spoken hexports).renews_of_spares ?_
  intro w exported w' hok
  have hP := conflicts_of_eq_ok hok
  refine ((Keeps.say _ _).renews_of_spares.bind fun _ =>
    (Keeps.sayAll _ _).renews_of_spares.bind fun _ => ?_ : Keeps (Renews _ _) _) w'
  refine (keeps_copyKeeping hh hname hP c source exported.names).discard.bind fun _ => ?_
  exact (keeps_edit hh hname hP c _).discard.bind fun _ => .pure _

end LoaderImage
end DualImage
