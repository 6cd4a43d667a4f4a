import DualImage.Proofs.Build.Frame
import DualImage.Proofs.Build.Steps
import DualImage.Proofs.Half.Conduct

/-! The stages of a build, however they end: what they do to the world, and the failures that each of
them can bring. -/
namespace DualImage
variable {C : Command → Prop} {A B : Path → Prop} {R : World → World → Prop} {P : Failure → Prop}
  {α : Type} {dir : Path}

/-- Names and directory are those that a target gives to the halves. -/
def Half.LiesIn (name : String) (dir : Path) (h : Half) : Prop := h.name = name ∧ h.buildDir = dir

theorem Half.LiesIn.binary_eq {h : Half} {name : String} (hh : h.LiesIn name dir) (binary : String)
    (hname : (name : Text) ++ ".elf" = binary) : h.binary = (dir.child name).child binary := by
  rw [Half.binary, Half.directory, hh.1, hh.2, hname]

structure Workshop.LiesIn (dir : Path) (workshop : Workshop) : Prop where
  application : workshop.application.LiesIn "app" dir
  loader : ∀ l, workshop.loader = some l → l.LiesIn "loader" dir

/-- Both halves may be built in this directory, and the loader may be linked there. -/
structure AsksIn (C : Command → Prop) (A B : Path → Prop) (dir : Path) : Prop where
  application : ∀ h : Half, h.LiesIn "app" dir → h.Asks C A
  loader : ∀ h : Half, h.LiesIn "loader" dir → h.Asks C A
  link : ∀ h : Half, h.LiesIn "loader" dir → h.AsksLink C B

/-- The loader image may be made at this path, with the list of the symbols that it keeps. -/
structure AsksImage (C : Command → Prop) (B : Path → Prop) (image : Path) : Prop where
  keep : ∀ list, Compiler.keepFile image = .ok list → B list
  edit : ∀ (c : Compiler) tool words, c.tool "objcopy" = .ok tool →
    C (tool :: (words ++ [image.toText]))

theorem asksIn_anyhow (dir : Path) : AsksIn (fun _ => True) (fun _ => True) (fun _ => True) dir :=
  ⟨fun h _ => h.asks_anyhow, fun h _ => h.asks_anyhow, fun h _ => h.asksLink_anyhow⟩

theorem asksImage_anyhow (image : Path) : AsksImage (fun _ => True) (fun _ => True) image := by
  constructor <;> intros <;> trivial

/-- A package that is shared only in part is refused. -/
def Failure.TechnicalOrShared (f : Failure) : Prop :=
  f.Technical ∨ ∃ package names, f = .partlyShared package names

namespace Build
variable {s s' : Workshop × World} {w w' : World} {f : Failure}

/-- A workshop stays where it is, and its world changes as the relation allows. -/
def Along (dir : Path) (R : World → World → Prop) (s s' : Workshop × World) : Prop :=
  s.1.LiesIn dir → s'.1.LiesIn dir ∧ R s.2 s'.2

private theorem sound_packageNames (names : List Document) : Sound (packageNames names) := by
  unfold packageNames
  split
  · exact .ok _
  · exact .error trivial

theorem obeys_onWorld {a : Action α} (ha : Obeys R P a s.2) : Obeys (Along dir R) P (onWorld a) s :=
  .within ha fun _ ht hs => ⟨hs, ht⟩

theorem obeys_onApplication {a : HalfAction α}
    (ha : Obeys (Half.Along R) P a (s.1.application, s.2)) :
    Obeys (Along dir R) P (onApplication a) s := by
  refine .within ha ?_
  rintro ⟨_, w⟩ ⟨⟨archives, rfl⟩, hw⟩ hs
  exact ⟨⟨hs.application, hs.loader⟩, hw⟩

theorem obeys_onLoader {loader : Half} (hl : loader.LiesIn "loader" dir) {a : HalfAction α}
    (ha : Obeys (Half.Along R) P a (loader, s.2)) : Obeys (Along dir R) P (onLoader loader a) s := by
  refine .within ha ?_
  rintro ⟨_, w⟩ ⟨⟨archives, rfl⟩, hw⟩ hs
  refine ⟨⟨hs.application, ?_⟩, hw⟩
  rintro _ ⟨⟩
  exact hl

theorem loader_liesIn {plan : Target.Plan} {loader : Half} {x : Extraction}
    (hx : halves plan loader s = .ok x s') (hs' : s'.1.LiesIn dir) :
    x.loader.LiesIn "loader" dir := by
  refine hs'.loader x.loader ?_
  rw [(halves_steps hx).1]

variable [IsPreorder World R]

instance : IsPreorder (Workshop × World) (Along dir R) where
  refl s hs := ⟨hs, refl_of R s.2⟩
  trans _ _ _ hfirst hsecond hs := by
    obtain ⟨hs', hw⟩ := hfirst hs
    obtain ⟨hs'', hw'⟩ := hsecond hs'
    exact ⟨hs'', trans_of R hw hw'⟩

private theorem obeys_removeFromApplication (names : List Text) :
    Obeys (Along dir R) Failure.Technical (removeFromApplication names) s := by
  refine .get_bind ?_
  have hlift : Obeys R Failure.Technical (World.lift (s.1.application.removePackages names)) s.2 :=
    .lift (s.1.application.sound_removePackages names).technical
  refine (obeys_onWorld hlift).bind_of_ok fun h t hr => .modify fun hs => ⟨⟨?_, hs.loader⟩, refl_of R _⟩
  obtain ⟨hsame, hr⟩ := onWorld_eq_ok hr
  rw [Half.removePackages_eq_ok (World.lift_eq_ok_iff.1 hr).1, ← hsame]
  exact hs.application

section
variable (hc : Conduct C A B R)
include hc

theorem obeys_buildLoader {s : Half × World} (hh : s.1.Asks C A) (hl : s.1.AsksLink C B)
    (plan : Target.Plan) :
    Obeys (Half.Along R) Failure.TechnicalOrClash (buildLoader plan) s := by
  refine ((Half.obeys_build hc hh).mono fun _ => .inl).bind fun _ t ht => ?_
  have hlink := Half.obeys_link hc (hl.along ht) plan.linkerScript [] (w := t.2)
  refine ((Half.obeys_onHalf hlink).discard.mono fun _ => .inl).bind fun _ u hu => ?_
  have hhu := (hh.along ht).along hu
  refine (Half.obeys_onHalf (Half.obeys_extractSymbols hc hhu.dump)).bind fun _ v hv => ?_
  have hread := Half.obeys_readBinary hc (hhu.along hv).dump v.1.binary (w := v.2)
  exact ((Half.obeys_onHalf hread).mono fun _ => .inl).bind fun _ _ _ => .pure _

theorem obeys_buildApplication {s : Half × World} (hh : s.1.Asks C A) :
    Obeys (Half.Along R) Failure.TechnicalOrClash buildApplication s :=
  ((Half.obeys_build hc hh).mono fun _ => .inl).bind fun _ _ ht =>
    Half.obeys_onHalf (Half.obeys_extractSymbols hc (hh.along ht).dump)

theorem obeys_single {s : Half × World} (hh : s.1.Asks C A) (hl : s.1.AsksLink C B)
    (plan : Target.Plan) : Obeys (Half.Along R) Failure.Technical (single plan) s := by
  refine (Half.obeys_build hc hh).bind fun _ t ht => ?_
  refine (Half.obeys_onHalf (Half.obeys_link hc (hl.along ht) _ _)).bind fun _ _ _ => ?_
  exact (Half.obeys_ofAction (hc.say _ _)).bind fun _ _ _ => .pure _

theorem obeys_halves_of {loader : Half} (hl : loader.LiesIn "loader" dir) (hloader : loader.Asks C A)
    (hlink : loader.AsksLink C B) (happlication : s.1.application.Asks C A) (plan : Target.Plan) :
    Obeys (Along dir R) Failure.TechnicalOrClash (halves plan loader) s := by
  have hbuilt := obeys_buildLoader hc hloader hlink plan (s := (loader, s.2))
  refine (obeys_onLoader hl hbuilt).bind_of_ok fun _ t hr => .get_bind ?_
  have hsame : t.1.application = s.1.application := by
    obtain ⟨u, -, rfl⟩ := within_eq_ok_iff.1 hr
    rfl
  have happlied := obeys_buildApplication hc (s := (t.1.application, t.2)) (hsame ▸ happlication)
  exact (obeys_onApplication happlied).bind fun _ _ _ => .get_bind (.pure _)

theorem obeys_halves (hasks : AsksIn C A B dir) (hs : s.1.LiesIn dir) {loader : Half}
    (hl : loader.LiesIn "loader" dir) (plan : Target.Plan) :
    Obeys (Along dir R) Failure.TechnicalOrClash (halves plan loader) s :=
  obeys_halves_of hc hl (hasks.loader loader hl) (hasks.link loader hl)
    (hasks.application _ hs.application) plan

/-- What is done for the loader image once it is known what it exports. -/
private theorem obeys_edited {image : Path} (hi : AsksImage C B image) (c : Compiler)
    (source : Path) (exported : SymbolTable) : Obeys R Failure.Technical (do
      World.say Console.normal
        ("Generating ROM elf " ++ image.name ++ " (" ++ toString exported.size ++ " symbols)")
      World.sayAll Console.verbose (exported.report "Exporting")
      discard <| c.copyKeeping source exported.names image
      c.renameSymbols image LoaderImage.boundarySymbols LoaderImage.loaderEnding
      return exported : Action SymbolTable) w := by
  refine (hc.say _ _).bind fun _ _ _ => (hc.sayAll _ _).bind fun _ _ _ => ?_
  refine (hc.copyKeeping hi.keep (hi.edit c)).discard.bind fun _ _ _ => ?_
  exact (hc.renameSymbols (hi.edit c)).bind fun _ _ _ => .pure _

omit [IsPreorder World R] in
private theorem keeps_exports (loader application linked : SymbolTable) :
    R w (leaves (LoaderImage.exports loader application linked w)) :=
  (Obeys.of_answers hc.spoken (LoaderImage.answers_exports loader application linked w)
    fun _ _ => trivial).keeps

theorem obeys_readExports {h : Half} (hh : h.AsksDump C) (image : Path) :
    Obeys R Failure.Technical (LoaderImage.readExports h.compiler image) w :=
  (hc.dumpSymbols fun tool htool => hh tool htool image).bind fun text _ _ =>
    (hc.readListing _ text).bind fun _ _ _ => .pure _

private theorem obeys_reconcile {x : Extraction} (hh : x.loader.AsksDump C)
    (hi : AsksImage C B x.loader.loaderImage) : Obeys R (fun _ => True)
      (reconcile x.loader x.application x.loaderSymbols x.applicationSymbols x.linked) w := by
  refine .lift_bind (fun _ _ => trivial) fun _ _ => .lift_bind (fun _ _ => trivial) fun _ _ => ?_
  refine ((hc.isStale _ _).mono fun _ _ => trivial).bind fun stale w' _ => ?_
  cases stale with
  | true =>
    have hexports : Obeys R (fun _ => True) (LoaderImage.exports x.loaderSymbols
        x.applicationSymbols x.linked) w' := ⟨keeps_exports hc _ _ _, fun _ _ _ => trivial⟩
    refine (hexports.bind fun exported _ _ => ?_).bind fun _ _ _ => .pure _
    exact (obeys_edited hc hi _ _ exported).mono fun _ _ => trivial
  | false =>
    refine (hc.say _ _).bind fun _ _ _ => ?_
    exact ((obeys_readExports hc hh _).mono fun _ _ => trivial).bind fun _ _ _ => .pure _

private theorem obeys_refusePartlyShared (loader application exported : SymbolTable)
    (skip : List Text) :
    Obeys R Failure.TechnicalOrShared (refusePartlyShared loader application exported skip) w := by
  unfold refusePartlyShared
  split
  · refine (hc.say _ _).bind fun _ _ _ => (hc.sayAll _ _).bind fun _ _ _ => ?_
    exact .throw (.inr ⟨_, _, rfl⟩)
  · exact .pure _

/-- What is decided once the exports are known. -/
theorem obeys_chosen (dir : Path) (plan : Target.Plan) (l : Target.LoaderPlan) (x : Extraction)
    (exported : SymbolTable) (regenerated : Bool) : Obeys (Along dir R) Failure.TechnicalOrShared (do
      let skip ← onWorld (World.lift (packageNames [plan.application.name, l.part.name]))
      onWorld (refusePartlyShared x.loaderSymbols x.applicationSymbols exported skip)
      let keep ← onWorld (World.lift (packageNames [plan.board.name, plan.application.name]))
      let common := Sharing.commonPackages x.applicationSymbols exported keep
      onWorld (sayCommon common)
      removeFromApplication common
      return ⟨exported, regenerated, common, (← get).1.application⟩ : BuildAction Settlement) s := by
  have hnames (names : List Document) {s : Workshop × World} :
      Obeys (Along dir R) Failure.TechnicalOrShared
        (onWorld (World.lift (packageNames names))) s :=
    obeys_onWorld (.lift fun f hf => .inl ((sound_packageNames names).technical f hf))
  refine (hnames _).bind fun skip _ _ => ?_
  refine (obeys_onWorld (obeys_refusePartlyShared hc _ _ _ _)).bind fun _ _ _ => ?_
  refine (hnames _).bind fun keep _ _ => ?_
  refine (obeys_onWorld (.ite (hc.say _ _) (.pure _))).bind fun _ _ _ => ?_
  refine ((obeys_removeFromApplication _).mono fun _ => .inl).bind fun _ _ _ => ?_
  exact .get_bind (.pure _)

theorem obeys_settle (dir : Path) {x : Extraction} (hh : x.loader.AsksDump C)
    (hi : AsksImage C B x.loader.loaderImage) (plan : Target.Plan) (l : Target.LoaderPlan) :
    Obeys (Along dir R) (fun _ => True) (settle plan l x) s :=
  (obeys_onWorld (obeys_reconcile hc hh hi)).bind fun made _ _ =>
    (obeys_chosen hc dir plan l x made.1 made.2).mono fun _ _ => trivial

theorem obeys_reportDifferences {loader application : Half} (hl : loader.AsksDump C)
    (ha : application.AsksDump C) :
    Obeys R Failure.Technical (reportDifferences loader application) w := by
  refine .get_bind (.ite ?_ (.pure _))
  refine (Half.obeys_readBinary hc ha _).bind fun _ _ _ => ?_
  refine (Half.obeys_readBinary hc hl _).bind fun _ _ _ => ?_
  have hcompare {a b : SymbolTable} {w : World} :
      Obeys R Failure.Technical (World.compare false a b) w :=
    .of_answers hc.spoken (.compare false a b) (by rintro _ ⟨⟩)
  exact hcompare.bind fun _ _ _ => (hc.sayAll _ _).bind fun _ _ _ => hc.sayAll _ _

theorem obeys_conclude (dir : Path) {x : Extraction} {j : Settlement} (hl : x.loader.AsksDump C)
    (ha : j.application.AsksDump C) (hlink : j.application.AsksLink C B) (l : Target.LoaderPlan) :
    Obeys (Along dir R) Failure.Technical (conclude l x j) s := by
  refine (obeys_onWorld (Half.obeys_link hc hlink _ _)).bind fun _ _ _ => ?_
  refine (obeys_onWorld ((obeys_reportDifferences hc hl ha).bind fun _ _ _ => ?_)).bind fun _ _ _ => .pure _
  exact (hc.say _ _).bind fun _ _ _ => hc.say _ _

end

omit [IsPreorder World R] in
/-- A conflict is found before anything is done for the loader image. -/
private theorem reconcile_eq_error {x : Extraction}
    (hr : reconcile x.loader x.application x.loaderSymbols x.applicationSymbols x.linked w =
      .error f w') : f.Technical ∨ (∃ pairs, f = .conflicts pairs) ∧ Spoken w w' := by
  have hlift {h : Half} {w : World} : Obeys World.Anyhow Failure.Technical
      (World.lift h.archivePaths) w := .lift h.sound_archivePaths.technical
  rcases Action.bind_eq_error_iff.1 hr with hr | ⟨ofLoader, w₁, hfirst, hr⟩
  · exact .inl (hlift.fails f w' hr)
  rcases Action.bind_eq_error_iff.1 hr with hr | ⟨ofApplication, w₂, hsecond, hr⟩
  · exact .inl (hlift.fails f w' hr)
  rcases Action.bind_eq_error_iff.1 hr with hr | ⟨stale, w₃, hstale, hr⟩
  · exact .inl ((conduct_anyhow.isStale _ _).fails f w' hr)
  have hspoken : Spoken w w₃ := by
    rw [(World.lift_eq_ok_iff.1 hsecond).2, (World.lift_eq_ok_iff.1 hfirst).2] at hstale
    exact World.isStale_eq_ok hstale
  cases stale with
  | false =>
    refine .inl (((conduct_anyhow.say _ _).bind fun _ _ _ => ?_).fails f w' hr)
    exact (obeys_readExports conduct_anyhow x.loader.asks_anyhow.dump _).bind fun _ _ _ => .pure _
  | true =>
    rcases Action.bind_eq_error_iff.1 hr with hr | ⟨_, _, -, hr⟩
    · rcases Action.bind_eq_error_iff.1 hr with hexports | ⟨exported, w₄, -, hr⟩
      · obtain ⟨hf, hsaid⟩ := (LoaderImage.answers_exports _ _ _ w₃).of_error hexports
        split at hf
        · cases hf
        · cases hf
          exact .inr ⟨⟨_, rfl⟩, trans_of Spoken hspoken hsaid⟩
      · have hedited := obeys_edited conduct_anyhow (asksImage_anyhow x.loader.loaderImage)
          x.loader.compiler x.loader.binary exported (w := w₄)
        exact .inl (hedited.fails f w' hr)
    · cases hr

omit [IsPreorder World R] in
/-- While the application's packages are chosen, a conflict changes nothing but the console. -/
theorem settle_eq_error {plan : Target.Plan} {l : Target.LoaderPlan} {x : Extraction}
    (hr : settle plan l x s = .error f s') :
    f.TechnicalOrShared ∨ (∃ pairs, f = .conflicts pairs) ∧ Spoken s.2 s'.2 := by
  rcases Action.bind_eq_error_iff.1 hr with hr | ⟨made, t, -, hr⟩
  · obtain ⟨w, hw, rfl⟩ := within_eq_error_iff.1 hr
    exact (reconcile_eq_error hw).imp_left .inl
  · exact .inl ((obeys_chosen conduct_anyhow default plan l x made.1 made.2).fails f s' hr)

end Build
end DualImage
