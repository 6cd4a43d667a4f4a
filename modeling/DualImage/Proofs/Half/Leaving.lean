import DualImage.Proofs.Compiler.Leaving
import DualImage.Proofs.Half.Conduct
import DualImage.Proofs.Half.Upkeep

/-! What building and linking a half leave alone: a build writes in the directory of the half only, and
a link writes the binary and the record beside it. -/
namespace DualImage
variable {h : Half} {here place : Place} {S : Place → Prop} {p : Path} {ending : String}

namespace Place

/-- The place of an object or of an archive, by its name. -/
def IsPiece (place : Place) : Prop := place.EndsIn 'o' ∨ place.EndsIn 'a'

theorem EndsIn.not_isPiece {c : Char} {byte : UInt8} (h : place.EndsIn c)
    (hc : FileName.bytesOf? (.character c) = some [byte]) (hne : byte ≠ 111 ∧ byte ≠ 97) :
    ¬ place.IsPiece := by
  rintro (ho | ha)
  · exact hne.1 (h.byte_eq ho hc rfl)
  · exact hne.2 (h.byte_eq ha hc rfl)

theorem IsRecord.not_isPiece (h : place.IsRecord) : ¬ place.IsPiece := by
  rcases h with hd | hp
  · exact hd.not_isPiece rfl (by decide)
  · exact hp.not_isPiece rfl (by decide)

end Place

/-- The place is neither that of the path nor that of what is kept beside it. -/
def Path.Apart (p : Path) (ending : String) (here place : Place) : Prop :=
  place ≠ p.place here ∧ ∀ q, Compiler.beside p ending = .ok q → place ≠ q.place here

/-- Objects and archives are neither binaries nor records. -/
theorem Place.IsPiece.apart (h : place.IsPiece) (hp : (p.place here).EndsIn 'f')
    (hending : ending ∈ [".cmd", ".keep"]) : p.Apart ending here place := by
  refine ⟨?_, fun q hq => ?_⟩
  · rintro rfl
    exact hp.not_isPiece rfl (by decide) h
  · rintro rfl
    exact (isRecord_of_beside hending hq here).not_isPiece h

/-- A command avoids what its output avoids. -/
theorem Command.avoids_of_output {c : Command} (hc : c.output? = some p)
    (hp : p.Avoids here S) : c.Avoids here S := by
  intro q hq
  cases hc.symm.trans hq
  exact hp

namespace Half

theorem asksDump_avoids (h : Half) : h.AsksDump (Command.Avoids here S) := by
  intro tool htool p q hq
  obtain ⟨before, -, rfl⟩ := Compiler.tool_eq_ok_iff.1 htool
  rw [Command.output?_objdump] at hq
  cases hq

namespace Regular
variable (hh : h.Regular)
include hh

theorem isPiece_of_mem_outputs (hp : p ∈ h.outputs) (here : Place) : (p.place here).IsPiece := by
  obtain ⟨source, object, archive, hmakes, rfl | rfl⟩ := mem_outputs_iff.1 hp
  · exact .inl (hmakes.endsIn_object hh here)
  · exact .inr (hmakes.endsIn_archive here)

theorem below_of_mem_outputs (hp : p ∈ h.outputs) (here : Place) :
    h.directory.place here <+: p.place here := by
  obtain ⟨source, object, archive, ⟨package, hpackage, hpath, dir, objects, hdir, hpaths, hmem⟩,
    rfl | rfl⟩ := mem_outputs_iff.1 hp
  · exact below_object hh hpackage hdir hpaths (List.of_mem_zip hmem).2 here
  · exact below_archivePath hpath here

private theorem asks_avoids (hS : ∀ place, S place → ¬ h.directory.place here <+: place) :
    h.Asks (Command.Avoids here S) (Path.Avoids here S) where
  compile := by
    intro package hp objectDir objects hdir hpaths object ho source command hcommand
    refine Command.avoids_of_output (hh.output?_compile hp hdir hpaths ho hcommand) fun hplace => ?_
    exact hS _ hplace (below_object hh hp hdir hpaths ho here)
  archive := by
    intro name path tool hpath htool objects
    refine Command.avoids_of_output (p := path) ?_ fun hplace =>
      hS _ hplace (below_archivePath hpath here)
    obtain ⟨before, -, rfl⟩ := Compiler.tool_eq_ok_iff.1 htool
    rw [Command.output?_ar]
    exact congrArg some (hh.plain_archivePath hpath).readBack
  archivePath _ _ hpath hplace := hS _ hplace (below_archivePath hpath here)
  dump := h.asksDump_avoids

/-- Building a half leaves alone what is not in its directory. -/
theorem leaving_of_build (here : Place) {h' : Half} {w w' : World}
    (hr : Half.build (h, w) = .ok () (h', w')) :
    World.Leaving here (¬ h.directory.place here <+: ·) w w' :=
  ((obeys_build (World.conduct_leaving here _) (hh.asks_avoids fun _ => id) (s := (h, w))).ok hr).2

theorem asksLink_avoids (here : Place) :
    h.AsksLink (Command.Avoids here (h.binary.Apart ".cmd" here))
      (Path.Avoids here (h.binary.Apart ".cmd" here)) where
  record record hrecord hplace := hplace.2 record hrecord rfl
  command _ _ _ _ hcommand :=
    Command.avoids_of_output (Compiler.output?_of_linkCommand hh.plain_binary hcommand)
      fun hplace => hplace.1 rfl

/-- Linking a half leaves alone all but its binary and its record. -/
theorem leaving_of_link (here : Place) {script q : Path} {symbolFiles : List Path} {w w' : World}
    (hr : h.link script symbolFiles w = .ok q w') :
    World.Leaving here (h.binary.Apart ".cmd" here) w w' :=
  (obeys_link (World.conduct_leaving here _) (hh.asksLink_avoids here) script symbolFiles).ok hr

end Regular

end Half
end DualImage
