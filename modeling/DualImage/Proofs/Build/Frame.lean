import DualImage.Proofs.Build.Stages
import DualImage.Proofs.LoaderImage.Renewal

/-! A build renews the loader image in its directory only after a comparison without a conflict. -/
namespace DualImage
open World (Spares Renews)
variable {dir : Path} {P : Prop} {α β : Type}

/-- The half is in order and builds in this directory. -/
def Half.SettledIn (dir : Path) (h : Half) : Prop := h.Orderly ∧ h.buildDir = dir

namespace Half
variable {h h' : Half} {names : List Text}

theorem SettledIn.of_archives (hh : h.SettledIn dir)
    (harchives : ∃ archives, h' = { h with archives }) : h'.SettledIn dir := by
  obtain ⟨archives, rfl⟩ := harchives
  exact ⟨hh.1.of_archives archives, hh.2⟩

theorem name_of_archives (harchives : ∃ archives, h' = { h with archives }) : h'.name = h.name := by
  obtain ⟨archives, rfl⟩ := harchives
  rfl

/-- Packages go by their names, except the board's. -/
theorem removePackages_eq_ok (hr : h.removePackages names = .ok h') :
    h' = { h with packages := h.packages.filter fun p =>
      !(names.filter (!h.boardName.isText ·)).any p.name.isText } := by
  unfold removePackages at hr
  cases hboard : h.boardName.canBeKey with
  | false =>
    rw [hboard] at hr
    cases hr
  | true =>
    rw [hboard] at hr
    cases hany : h.packages.any (!·.name.canBeKey) with
    | true =>
      rw [hany] at hr
      cases hr
    | false =>
      rw [hany] at hr
      cases hr
      rfl

theorem SettledIn.removePackages (hh : h.SettledIn dir)
    (hr : h.removePackages names = .ok h') : h'.SettledIn dir := by
  obtain ⟨horder, hdir⟩ := hh
  rw [removePackages_eq_ok hr]
  refine ⟨⟨horder.name, horder.plain, horder.misses, horder.flags, ?_⟩, hdir⟩
  exact fun p hp => horder.packages p (List.mem_of_mem_filter hp)

theorem keeps_onHalf {a : Half → Action α}
    (ha : ∀ h, h.SettledIn dir → Keeps (World.Spares (imagePath dir)) (a h)) :
    Keeps (Spares dir) (Build.onHalf a) :=
  Keeps.get_bind fun s hh hdir => keeps_ofAction (ha s.1 ⟨hh, hdir⟩) s hh hdir

theorem keeps_linkIn (script : Path) (symbolFiles : List Path) (h : Half) (hh : h.SettledIn dir) :
    Keeps (World.Spares (imagePath dir)) (h.link script symbolFiles) := by
  obtain ⟨horder, rfl⟩ := hh
  exact keeps_link horder script symbolFiles

end Half

/-- Both halves are settled in this directory. -/
structure Workshop.Orderly (dir : Path) (workshop : Workshop) : Prop where
  application : workshop.application.SettledIn dir
  loader : ∀ l, workshop.loader = some l → l.SettledIn dir ∧ l.name = "loader"

namespace Build
open Half (imagePath SettledIn)
variable {R : World → World → Prop}

/-- An orderly workshop stays orderly, and the world changes only as the relation allows. -/
def Within (dir : Path) (R : World → World → Prop) (s s' : Workshop × World) : Prop :=
  s.1.Orderly dir → s'.1.Orderly dir ∧ R s.2 s'.2

section
variable [IsPreorder World R]

instance : IsPreorder (Workshop × World) (Within dir R) where
  refl s hs := ⟨hs, refl_of R s.2⟩
  trans _ _ _ hfirst hsecond hs := by
    obtain ⟨hs', hw⟩ := hfirst hs
    obtain ⟨hs'', hw'⟩ := hsecond hs'
    exact ⟨hs'', trans_of R hw hw'⟩

omit [IsPreorder World R] in
theorem keeps_onWorld {a : Action α} (ha : Keeps R a) : Keeps (Within dir R) (onWorld a) :=
  Keeps.within ha fun _ _ hw hs => ⟨hs, hw⟩

theorem keeps_removeFromApplication (names : List Text) :
    Keeps (Within dir R) (removeFromApplication names) := by
  refine Keeps.get_bind fun s => ?_
  cases hr : s.1.application.removePackages names with
  | error f =>
    rw [Action.bind_of_error (by rw [onWorld, within, World.lift]; rfl)]
    exact refl_of (Within dir R) s
  | ok h =>
    rw [Action.bind_of_ok (by rw [onWorld, within, World.lift]; rfl)]
    exact fun hs => ⟨⟨hs.application.removePackages hr, hs.loader⟩, refl_of R s.2⟩

end

theorem keeps_onApplication {a : HalfAction α} (ha : Keeps (Half.Spares dir) a) :
    Keeps (Within dir (Spares (imagePath dir))) (onApplication a) := by
  refine Keeps.within ha fun s t hw hs => ?_
  obtain ⟨harchives, hspares⟩ := hw hs.application.1 hs.application.2
  exact ⟨⟨hs.application.of_archives harchives, hs.loader⟩, hspares⟩

theorem keeps_onLoader {loader : Half} (hl : loader.SettledIn dir) (hname : loader.name = "loader")
    {a : HalfAction α} (ha : Keeps (Half.Spares dir) a) :
    Keeps (Within dir (Spares (imagePath dir))) (onLoader loader a) := by
  refine Keeps.within ha fun s t hw hs => ?_
  obtain ⟨harchives, hspares⟩ := hw hl.1 hl.2
  refine ⟨⟨hs.application, ?_⟩, hspares⟩
  rintro _ ⟨⟩
  exact ⟨hl.of_archives harchives, (Half.name_of_archives harchives).trans hname⟩

theorem keeps_buildLoader (plan : Target.Plan) : Keeps (Half.Spares dir) (buildLoader plan) := by
  refine Half.keeps_build.bind fun _ => ?_
  refine (Half.keeps_onHalf (Half.keeps_linkIn _ _)).discard.bind fun _ => ?_
  refine (Half.keeps_onHalf fun h _ => Half.keeps_extractSymbols h).bind fun _ => ?_
  exact (Half.keeps_onHalf fun h _ => Half.keeps_readBinary h _).bind fun _ => .pure _

theorem keeps_buildApplication : Keeps (Half.Spares dir) buildApplication :=
  Half.keeps_build.bind fun _ => Half.keeps_onHalf fun h _ => Half.keeps_extractSymbols h

theorem keeps_single (plan : Target.Plan) : Keeps (Half.Spares dir) (single plan) := by
  refine Half.keeps_build.bind fun _ => ?_
  refine (Half.keeps_onHalf (Half.keeps_linkIn _ _)).bind fun _ => ?_
  exact (Half.keeps_ofAction (Keeps.say _ _)).bind fun _ => .pure _

theorem keeps_halves (plan : Target.Plan) {loader : Half} (hl : loader.SettledIn dir)
    (hname : loader.name = "loader") :
    Keeps (Within dir (Spares (imagePath dir))) (halves plan loader) := by
  refine (keeps_onLoader hl hname (keeps_buildLoader plan)).bind fun _ => ?_
  refine Keeps.get.bind fun _ => ?_
  refine (keeps_onApplication keeps_buildApplication).bind fun _ => ?_
  exact Keeps.get.bind fun _ => .pure _

theorem keeps_reconcile {loader : Half} (hl : loader.SettledIn dir) (hname : loader.name = "loader")
    (application : Half) (loaderSymbols applicationSymbols linked : SymbolTable) :
    Keeps (Renews (imagePath dir) ((loaderSymbols.compare true applicationSymbols).conflicts = []))
      (reconcile loader application loaderSymbols applicationSymbols linked) := by
  obtain ⟨horder, rfl⟩ := hl
  refine Keeps.lift_bind fun _ _ => Keeps.lift_bind fun _ _ => ?_
  refine (Keeps.isStale _ _).renews_of_spares.bind fun stale => ?_
  cases stale with
  | true =>
    exact (LoaderImage.keeps_build horder hname _ _ _ _ _).bind fun _ => .pure _
  | false =>
    refine (Keeps.say _ _).renews_of_spares.bind fun _ => Keeps.bind ?_ fun _ => .pure _
    refine (Keeps.dumpSymbols _ _).renews_of_spares.bind fun _ => ?_
    exact (Keeps.readListing _ _).renews_of_spares.bind fun _ => .pure _

private theorem keeps_refusePartlyShared {p : Path} (loader application exported : SymbolTable)
    (skip : List Text) : Keeps (Spares p) (refusePartlyShared loader application exported skip) := by
  unfold refusePartlyShared
  split
  · exact (Keeps.say _ _).bind fun _ => (Keeps.sayAll _ _).bind fun _ => .throw _
  · exact .pure _

private theorem keeps_sayCommon {p : Path} (packages : List Text) :
    Keeps (Spares p) (sayCommon packages) :=
  Keeps.ite (Keeps.say _ _) (.pure _)

private theorem keeps_reportDifferences {p : Path} (loader application : Half) :
    Keeps (Spares p) (reportDifferences loader application) := by
  refine Keeps.get.bind fun _ => Keeps.ite ?_ (.pure _)
  refine (Half.keeps_readBinary _ _).bind fun _ => (Half.keeps_readBinary _ _).bind fun _ => ?_
  have hcompare (a b : SymbolTable) : Keeps (Spares p) (World.compare false a b) :=
    Answers.keeps_of_spoken fun _ => .compare false a b
  exact (hcompare _ _).bind fun _ => (Keeps.sayAll _ _).bind fun _ => Keeps.sayAll _ _

theorem keeps_finish (plan : Target.Plan) (l : Target.LoaderPlan) {x : Extraction}
    (hl : x.loader.SettledIn dir) (hname : x.loader.name = "loader") :
    Keeps (Within dir (Renews (imagePath dir) x.Peaceful)) (finish plan l x) := by
  refine (keeps_onWorld (keeps_reconcile hl hname _ _ _ _)).bind fun _ => ?_
  refine (keeps_onWorld (Keeps.lift _).renews_of_spares).bind fun _ => ?_
  refine (keeps_onWorld (keeps_refusePartlyShared _ _ _ _).renews_of_spares).bind fun _ => ?_
  refine (keeps_onWorld (Keeps.lift _).renews_of_spares).bind fun _ => ?_
  refine (keeps_onWorld (keeps_sayCommon _).renews_of_spares).bind fun _ => ?_
  refine (keeps_removeFromApplication _).bind fun _ => Keeps.get_bind fun s hs => ?_
  have hlink : Keeps (Renews (imagePath dir) x.Peaceful)
      (s.1.application.link l.secondScript [x.loader.loaderImage]) :=
    (Half.keeps_linkIn _ _ _ hs.application).renews_of_spares
  refine ((keeps_onWorld hlink).bind fun _ => Keeps.bind (keeps_onWorld ?_) fun _ => .pure _ :
    Keeps (Within dir _) _) s hs
  refine (keeps_reportDifferences _ _).renews_of_spares.bind fun _ => ?_
  exact (Keeps.say _ _).renews_of_spares.bind fun _ => (Keeps.say _ _).renews_of_spares

end Build
end DualImage
