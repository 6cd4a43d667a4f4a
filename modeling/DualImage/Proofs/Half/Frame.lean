import DualImage.Proofs.Half.Extraction
import DualImage.Proofs.Half.Paths

/-! Building, linking and reading a half leave the loader image alone. -/
namespace DualImage
open World (Spares)

namespace Half
variable {dir : Path} {h : Half}

theorem Orderly.of_archives (hh : h.Orderly) (archives : List (Text × Path)) :
    { h with archives }.Orderly :=
  ⟨hh.name, hh.plain, hh.misses, hh.flags, hh.packages⟩

/-- An orderly half in this directory gets other archives at most, and the loader image stays. -/
def Spares (dir : Path) (s s' : Half × World) : Prop :=
  s.1.Orderly → s.1.buildDir = dir →
    (∃ archives, s'.1 = { s.1 with archives }) ∧ World.Spares (imagePath dir) s.2 s'.2

instance : IsPreorder (Half × World) (Spares dir) where
  refl s _ _ := ⟨⟨s.1.archives, rfl⟩, refl_of (World.Spares _) s.2⟩
  trans := by
    rintro ⟨h, w⟩ ⟨_, w'⟩ ⟨_, w''⟩ hfirst hsecond hh hdir
    obtain ⟨⟨archives, rfl⟩, hw⟩ := hfirst hh hdir
    obtain ⟨⟨archives', rfl⟩, hw'⟩ := hsecond (hh.of_archives archives) hdir
    exact ⟨⟨archives', rfl⟩, trans_of (World.Spares _) hw hw'⟩

theorem keeps_ofAction {α : Type} {a : Action α} (ha : Keeps (World.Spares (imagePath dir)) a) :
    Keeps (Spares dir) (HalfAction.ofAction a) :=
  Keeps.within ha fun s _ hw _ _ => ⟨⟨s.1.archives, rfl⟩, hw⟩

/-- What follows may count on the outcome that it needs. -/
theorem keeps_lift_bind {α β : Type} {r : Except Failure α} {f : α → HalfAction β}
    (hf : ∀ x, r = .ok x → Keeps (Spares dir) (f x)) :
    Keeps (Spares dir) (HalfAction.ofAction (World.lift r) >>= f) := by
  cases hr : r with
  | error e => exact fun s => refl_of (Spares dir) s
  | ok x => exact hf x hr

theorem keeps_buildPackage {package : Package} (hpackage : package.Orderly) :
    Keeps (Spares dir) (buildPackage package) := by
  refine Keeps.get_bind fun s hh hdir => ?_
  subst hdir
  refine (keeps_lift_bind fun objectDir hobjectDir => ?_ : Keeps (Spares s.1.buildDir) _) s hh rfl
  obtain ⟨hplain, hmisses⟩ := objectDir_spec hh hobjectDir
  refine (keeps_ofAction (Compiler.keeps_compile hh.flags hpackage.flags hmisses ?_)).bind
    fun objects => ?_
  · intro objects hobjects object ho
    exact objectPaths_spec hplain hmisses hpackage.sources hobjects ho
  · refine Keeps.ite (keeps_ofAction (Keeps.say _ _)) ?_
    refine (keeps_ofAction (Keeps.lift_bind fun path hpath => ?_)).bind fun path => ?_
    · obtain ⟨hpathPlain, hpathMisses⟩ := archivePath_spec hh hpath
      exact Compiler.keeps_archive hpathPlain hpathMisses
    · exact Keeps.modify fun s _ _ => ⟨⟨_, rfl⟩, refl_of (World.Spares _) s.2⟩

theorem keeps_build : Keeps (Spares dir) Half.build := by
  refine Keeps.get_bind fun s hh hdir => ?_
  refine ((keeps_ofAction (Keeps.say _ _)).bind fun _ => Keeps.forM fun package hp => ?_ :
    Keeps (Spares dir) _) s hh hdir
  exact keeps_buildPackage (hh.packages package hp)

theorem keeps_link (hh : h.Orderly) (script : Path) (symbolFiles : List Path) :
    Keeps (World.Spares (imagePath h.buildDir)) (h.link script symbolFiles) := by
  refine Keeps.lift_bind fun archives _ => ?_
  obtain ⟨hplain, hmisses, hrecord⟩ := binary_spec hh
  exact Compiler.keeps_link hplain hmisses hrecord

theorem keeps_extractSymbols {p : Path} (h : Half) : Keeps (World.Spares p) h.extractSymbols :=
  Answers.keeps fun w => (h.answers_extractSymbols w).mono fun _ => World.Quiet.unmoved

theorem keeps_readBinary {p : Path} (h : Half) (path : Path) :
    Keeps (World.Spares p) (h.readBinary path) :=
  (Keeps.dumpSymbols h.compiler path).bind fun _ => Keeps.readListing _ _

end Half
end DualImage
