import DualImage.Proofs.Build.Conduct
import DualImage.Proofs.Build.History

/-! What a build leaves of its workshop, however it ends: the halves get other archives, and the
application may lose packages. -/
namespace DualImage
variable {α : Type} {dir : Path}

/-- The same half, with other archives and with no package that it did not have. -/
def Half.Remains (h h' : Half) : Prop :=
  ∃ archives packages, packages ⊆ h.packages ∧ h' = { h with archives, packages }

instance : IsPreorder Half Half.Remains where
  refl h := ⟨h.archives, h.packages, List.Subset.refl _, rfl⟩
  trans := by
    rintro h _ _ ⟨_, packages, hsub, rfl⟩ ⟨archives, packages', hsub', rfl⟩
    exact ⟨archives, packages', List.Subset.trans hsub' hsub, rfl⟩

/-- Of both halves the same remains. -/
structure Workshop.Remains (workshop workshop' : Workshop) : Prop where
  plan : workshop'.plan = workshop.plan
  application : workshop.application.Remains workshop'.application
  loader : Option.Rel Half.Remains workshop.loader workshop'.loader

namespace Workshop

instance : IsPreorder Workshop Remains where
  refl workshop := by
    refine ⟨rfl, refl_of Half.Remains _, ?_⟩
    cases workshop.loader with
    | none => exact .none
    | some l => exact .some (refl_of Half.Remains l)
  trans := by
    rintro ⟨_, _, _⟩ ⟨_, _, _⟩ ⟨_, _, _⟩ ⟨rfl, happlication, hloader⟩ ⟨rfl, happlication', hloader'⟩
    refine ⟨rfl, trans_of Half.Remains happlication happlication', ?_⟩
    cases hloader with
    | none => exact hloader'
    | some hl =>
      cases hloader' with
      | some hl' => exact .some (trans_of Half.Remains hl hl')

variable {workshop workshop' : Workshop}

/-- A loader is there if it was there before. -/
theorem Remains.exists_loader (h : workshop.Remains workshop') {l' : Half}
    (hl' : workshop'.loader = some l') : ∃ l, workshop.loader = some l ∧ l.Remains l' := by
  have hloader := h.loader
  rw [hl'] at hloader
  cases hl : workshop.loader with
  | none =>
    rw [hl] at hloader
    cases hloader
  | some l =>
    rw [hl] at hloader
    cases hloader with
    | some hremains => exact ⟨l, rfl, hremains⟩

theorem Remains.liesIn (h : workshop.Remains workshop') (hw : workshop.LiesIn dir) :
    workshop'.LiesIn dir where
  application := by
    obtain ⟨_, _, -, hsame⟩ := h.application
    rw [hsame]
    exact hw.application
  loader l' hl' := by
    obtain ⟨l, hl, _, _, -, rfl⟩ := h.exists_loader hl'
    exact hw.loader l hl

end Workshop

namespace Build
variable {s : Workshop × World} {P : Failure → Prop}

/-- The workshop remains, whatever happens to the world. -/
private def Remaining (s s' : Workshop × World) : Prop := s.1.Remains s'.1

private instance : IsPreorder (Workshop × World) Remaining where
  refl s := refl_of Workshop.Remains s.1
  trans _ _ _ := trans_of Workshop.Remains

private theorem remaining_onWorld (a : Action α) :
    Obeys Remaining (fun _ => True) (onWorld a) s :=
  .within (S := World.Anyhow) ⟨trivial, fun _ _ _ => trivial⟩ fun _ _ => refl_of Remaining s

private theorem remaining_onApplication {a : HalfAction α}
    (ha : Obeys (Half.Along World.Anyhow) P a (s.1.application, s.2)) :
    Obeys Remaining P (onApplication a) s := by
  refine .within ha ?_
  rintro ⟨_, w⟩ ⟨⟨archives, rfl⟩, -⟩
  have hsame := refl_of Workshop.Remains s.1
  exact ⟨rfl, ⟨archives, _, List.Subset.refl _, rfl⟩, hsame.loader⟩

private theorem remaining_onLoader {loader : Half} (hloader : s.1.loader = some loader)
    {a : HalfAction α} (ha : Obeys (Half.Along World.Anyhow) P a (loader, s.2)) :
    Obeys Remaining P (onLoader loader a) s := by
  refine .within ha ?_
  rintro ⟨_, w⟩ ⟨⟨archives, rfl⟩, -⟩
  refine ⟨rfl, refl_of Half.Remains _, ?_⟩
  rw [hloader]
  exact .some ⟨archives, _, List.Subset.refl _, rfl⟩

private theorem remaining_removeFromApplication (names : List Text) :
    Obeys Remaining (fun _ => True) (removeFromApplication names) s := by
  refine .get_bind ((remaining_onWorld _).bind_of_ok fun h t hr => .modify ?_)
  obtain ⟨hsame, hr⟩ := onWorld_eq_ok hr
  rw [Half.removePackages_eq_ok (World.lift_eq_ok_iff.1 hr).1, ← hsame]
  have hremains := refl_of Workshop.Remains t.1
  exact ⟨rfl, ⟨_, _, List.filter_subset_self _, rfl⟩, hremains.loader⟩

private theorem remaining_halves (plan : Target.Plan) {loader : Half}
    (hloader : s.1.loader = some loader) :
    Obeys Remaining Failure.TechnicalOrClash (halves plan loader) s := by
  have hbuilt := obeys_buildLoader conduct_anyhow loader.asks_anyhow loader.asksLink_anyhow plan
    (s := (loader, s.2))
  refine (remaining_onLoader hloader hbuilt).bind fun _ t _ => .get_bind ?_
  have happlied := obeys_buildApplication conduct_anyhow t.1.application.asks_anyhow
    (s := (t.1.application, t.2))
  exact (remaining_onApplication happlied).bind fun _ _ _ => .get_bind (.pure _)

private theorem remaining_finish (plan : Target.Plan) (l : Target.LoaderPlan) (x : Extraction) :
    Obeys Remaining (fun _ => True) (finish plan l x) s := by
  refine (remaining_onWorld _).bind fun _ _ _ => (remaining_onWorld _).bind fun _ _ _ => ?_
  refine (remaining_onWorld _).bind fun _ _ _ => (remaining_onWorld _).bind fun _ _ _ => ?_
  refine (remaining_onWorld _).bind fun _ _ _ => ?_
  refine (remaining_removeFromApplication _).bind fun _ _ _ => .get_bind ?_
  exact (remaining_onWorld _).bind fun _ _ _ => (remaining_onWorld _).bind fun _ _ _ => .pure _

end Build

/-- Whatever a build does, its workshop remains. -/
theorem Round.remains (r : Round) : r.workshop.Remains (leaves r.run).1 := by
  rcases r.run_cases with ⟨-, hrun⟩ | ⟨-, loader, l, hloader, -, hrun, -⟩
  · have hsingle := Build.obeys_single conduct_anyhow r.workshop.application.asks_anyhow
      r.workshop.application.asksLink_anyhow r.workshop.plan
      (s := (r.workshop.application, r.before))
    rw [hrun]
    exact (Build.remaining_onApplication (s := (r.workshop, r.before)) hsingle).keeps
  · have hhalves := Build.remaining_halves r.workshop.plan hloader (s := (r.workshop, r.before))
    rw [hrun]
    exact ((hhalves.mono fun _ _ => trivial).bind fun x _ _ =>
      Build.remaining_finish r.workshop.plan l x).keeps

end DualImage
