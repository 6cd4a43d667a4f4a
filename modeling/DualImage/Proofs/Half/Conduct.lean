import DualImage.Build
import DualImage.Proofs.Compiler.Conduct
import DualImage.Proofs.Half.Extraction

/-! Building, linking and reading a half, however it ends: what is done to the world, and the reasons
for which it can fail. -/
namespace DualImage
variable {C : Command → Prop} {A B : Path → Prop} {R : World → World → Prop} {P : Failure → Prop}
  {α : Type}

/-- While its symbols are read, a half may also fail because two of its packages clash. -/
def Failure.TechnicalOrClash (f : Failure) : Prop :=
  f.Technical ∨ ∃ name first second, f = .clash name first second

namespace Half
variable {h : Half} {s t : Half × World} {w : World}

private theorem sound_fileName (name : Document) : Sound (fileName name) := by
  unfold fileName
  cases Package.fileName? name with
  | none => exact .error trivial
  | some t => exact .ok t

private theorem sound_objectDir (h : Half) (package : Document) : Sound (h.objectDir package) :=
  (sound_fileName package).bind fun _ => .ok _

private theorem sound_archivePath (h : Half) (package : Document) : Sound (h.archivePath package) :=
  (sound_fileName package).bind fun _ => .ok _

private theorem sound_archive? (h : Half) (package : Document) : Sound (h.archive? package) := by
  unfold archive?
  split
  · exact .ok _
  · exact .error trivial

theorem sound_archivePaths (h : Half) : Sound h.archivePaths :=
  (Sound.mapM fun package : Package => h.sound_archive? package.name).bind fun _ => .ok _

theorem sound_removePackages (h : Half) (names : List Text) : Sound (h.removePackages names) := by
  unfold removePackages
  cases h.boardName.canBeKey with
  | false => exact .error trivial
  | true =>
    cases h.packages.any (!·.name.canBeKey) with
    | true => exact .error trivial
    | false => exact .ok _

/-- What the half asks of its tools, other than to be linked, is allowed. -/
structure Asks (C : Command → Prop) (A : Path → Prop) (h : Half) : Prop where
  compile : ∀ package ∈ h.packages, ∀ objectDir objects, h.objectDir package.name = .ok objectDir →
    objectPaths? package.sources objectDir = some objects → ∀ object ∈ objects, ∀ source command,
      h.compiler.compileCommand package h.features source object = .ok command → C command
  archive : ∀ name path tool, h.archivePath name = .ok path → h.compiler.tool "ar" = .ok tool →
    ∀ objects, C (tool :: "rcs" :: path.toText :: objects)
  archivePath : ∀ name path, h.archivePath name = .ok path → A path
  dump : ∀ tool, h.compiler.tool "objdump" = .ok tool → ∀ p : Path, C [tool, "-t", p.toText]

/-- Archives and binaries may be listed for the half. -/
def AsksDump (C : Command → Prop) (h : Half) : Prop :=
  ∀ tool, h.compiler.tool "objdump" = .ok tool → ∀ p : Path, C [tool, "-t", p.toText]

/-- The half may be linked, and the command may be recorded. -/
structure AsksLink (C : Command → Prop) (B : Path → Prop) (h : Half) : Prop where
  record : ∀ record, Compiler.beside h.binary ".cmd" = .ok record → B record
  command : ∀ archives script symbolFiles command,
    h.compiler.linkCommand archives script h.binary symbolFiles = .ok command → C command

theorem asks_anyhow (h : Half) : h.Asks (fun _ => True) fun _ => True := by
  constructor <;> intros <;> trivial

theorem asksLink_anyhow (h : Half) : h.AsksLink (fun _ => True) fun _ => True := by
  constructor <;> intros <;> trivial

/-- The half gets other archives at most, and its world changes as the relation allows. -/
def Along (R : World → World → Prop) (s s' : Half × World) : Prop :=
  (∃ archives, s'.1 = { s.1 with archives }) ∧ R s.2 s'.2

theorem Asks.along (hh : s.1.Asks C A) (ht : Along R s t) : t.1.Asks C A := by
  obtain ⟨⟨archives, hsame⟩, -⟩ := ht
  rw [hsame]
  exact ⟨hh.compile, hh.archive, hh.archivePath, hh.dump⟩

theorem AsksLink.along (hh : s.1.AsksLink C B) (ht : Along R s t) : t.1.AsksLink C B := by
  obtain ⟨⟨archives, hsame⟩, -⟩ := ht
  rw [hsame]
  exact ⟨hh.record, hh.command⟩

theorem obeys_ofAction {a : Action α} (ha : Obeys R P a s.2) :
    Obeys (Along R) P (HalfAction.ofAction a) s :=
  .within ha fun _ ht => ⟨⟨s.1.archives, rfl⟩, ht⟩

theorem obeys_onHalf {a : Half → Action α} (ha : Obeys R P (a s.1) s.2) :
    Obeys (Along R) P (Build.onHalf a) s :=
  .get_bind (obeys_ofAction ha)

variable [IsPreorder World R]

instance : IsPreorder (Half × World) (Along R) where
  refl s := ⟨⟨s.1.archives, rfl⟩, refl_of R s.2⟩
  trans := by
    rintro ⟨h, w⟩ ⟨_, w'⟩ ⟨_, w''⟩ ⟨⟨archives, rfl⟩, hw⟩ ⟨⟨archives', rfl⟩, hw'⟩
    exact ⟨⟨archives', rfl⟩, trans_of R hw hw'⟩

variable (hc : Conduct C A B R)

private theorem obeys_lift_bind {β : Type} {r : Except Failure α} {f : α → HalfAction β}
    (hr : Sound r) (hf : ∀ x, r = .ok x → Obeys (Along R) Failure.Technical (f x) s) :
    Obeys (Along R) Failure.Technical (HalfAction.ofAction (World.lift r) >>= f) s := by
  cases hx : r with
  | ok x => exact hf x hx
  | error g => exact (obeys_ofAction (.throw (hr g hx).technical)).bind_of_ok fun _ _ h => by cases h

include hc

private theorem obeys_buildPackage (hh : s.1.Asks C A) {package : Package}
    (hp : package ∈ s.1.packages) :
    Obeys (Along R) Failure.Technical (buildPackage package) s := by
  refine .get_bind (obeys_lift_bind (s.1.sound_objectDir package.name) fun objectDir hdir => ?_)
  have hcompile := hc.compile (w := s.2) fun objects =>
    hh.compile package hp objectDir objects hdir
  refine (obeys_ofAction hcompile).bind fun objects _ _ => ?_
  refine .ite (obeys_ofAction (hc.say _ _)) ?_
  have harchive {w : World} : Obeys R Failure.Technical
      (do s.1.compiler.archive objects (← World.lift (s.1.archivePath package.name))) w :=
    .lift_bind (s.1.sound_archivePath package.name).technical fun path hpath =>
      hc.archive (hh.archivePath _ path hpath) fun tool htool => hh.archive _ path tool hpath htool _
  refine (obeys_ofAction harchive).bind fun path _ _ => ?_
  exact .modify ⟨⟨_, rfl⟩, refl_of R _⟩

theorem obeys_build (hh : s.1.Asks C A) : Obeys (Along R) Failure.Technical Half.build s := by
  refine .get_bind ((obeys_ofAction (hc.say _ _)).bind fun _ t ht => ?_)
  refine .forM fun package hp u hu => obeys_buildPackage hc ((hh.along ht).along hu) ?_
  obtain ⟨⟨archives, ht⟩, -⟩ := ht
  obtain ⟨⟨archives', hu⟩, -⟩ := hu
  rw [hu, ht]
  exact hp

theorem obeys_link (hh : h.AsksLink C B) (script : Path) (symbolFiles : List Path) :
    Obeys R Failure.Technical (h.link script symbolFiles) w :=
  .lift_bind h.sound_archivePaths.technical fun archives _ =>
    hc.link hh.record (hh.command archives script symbolFiles)

theorem obeys_readBinary (hh : h.AsksDump C) (path : Path) :
    Obeys R Failure.Technical (h.readBinary path) w :=
  (hc.dumpSymbols fun tool htool => hh tool htool path).bind fun text _ _ =>
    hc.readListing _ text

omit [IsPreorder World R] in
private theorem obeys_settle (m : SymbolTable.Merge) :
    Obeys R Failure.TechnicalOrClash (World.settle m) w := by
  refine .of_answers hc.spoken (World.answers_settle m w) ?_
  unfold SymbolTable.Merge.outcome
  split
  · rintro _ ⟨⟩
  · rintro _ ⟨⟩
    exact .inr ⟨_, _, _, rfl⟩

theorem obeys_extractSymbols (hh : h.AsksDump C) :
    Obeys R Failure.TechnicalOrClash h.extractSymbols w := by
  refine .foldlM (fun symbols package _ w _ => ?_) ∅
  refine .lift_bind (fun f hf => .inl ((h.sound_archive? package.name).technical f hf)) fun path? _ => ?_
  cases path? with
  | none => exact .pure _
  | some path =>
    have hdump := hc.dumpSymbols (w := w) fun tool htool => hh tool htool path
    refine (hdump.mono fun _ => .inl).bind fun text _ _ => ?_
    refine ((hc.readListing _ text).mono fun _ => .inl).bind fun listed _ _ => ?_
    exact obeys_settle hc _

end Half
end DualImage
