import DualImage.Proofs.Build.Frame

/-! Targets whose builds keep to their directory: both halves of such a target are in order. -/
namespace DualImage
open Half (imagePath SettledIn)
variable {dir : Path}

/-- The target is built in this directory. None of its flags redirects the compiler, and its sources
could have been read. -/
structure Target.Orderly (dir : Path) (t : Target) : Prop where
  buildDir : t.buildDir = dir
  compiler : ∀ c, t.compiler = some c → Compiler.Undirected c.compileFlags
  board : ∀ b, t.board = some b → b.package.Orderly
  application : ∀ part, t.application = some part → ∀ p ∈ part.packages, p.Orderly
  loader : ∀ part, t.loader = some part → ∀ p ∈ part.packages, p.Orderly

namespace Target
variable {t : Target} {plan : Plan}

private theorem refuse_ne_ok {α : Type} {fault : Text → TargetFault} {name : Document} {x : α} :
    refuse fault name ≠ .ok x := by
  intro h
  obtain ⟨_, -, h⟩ := Except.bind_eq_ok_iff.1 h
  cases h

/-- A plan is made of the parts of its target. -/
theorem plan_eq_ok (h : t.plan = .ok plan) :
    t.board = some plan.board ∧ t.compiler = some plan.compiler ∧
      t.application = some plan.application ∧ t.loader = plan.loader.map (·.part) := by
  unfold Target.plan at h
  cases hboard : t.board with
  | none =>
    rw [hboard] at h
    exact absurd h refuse_ne_ok
  | some board =>
  rw [hboard] at h
  cases hcompiler : t.compiler with
  | none =>
    rw [hcompiler] at h
    exact absurd h refuse_ne_ok
  | some compiler =>
  rw [hcompiler] at h
  cases happlication : t.application with
  | none =>
    rw [happlication] at h
    exact absurd h refuse_ne_ok
  | some application =>
  rw [happlication] at h
  dsimp only at h
  cases hscript : board.linkerScript with
  | none =>
    rw [hscript] at h
    exact absurd h refuse_ne_ok
  | some script =>
  rw [hscript] at h
  dsimp only at h
  cases hloader : t.loader with
  | none =>
    rw [hloader] at h
    cases h
    exact ⟨rfl, rfl, rfl, rfl⟩
  | some part =>
  rw [hloader] at h
  cases hsecond : board.secondScript with
  | none =>
    rw [hsecond] at h
    obtain ⟨_, hrefuse, -⟩ := Except.bind_eq_ok_iff.1 h
    exact absurd hrefuse refuse_ne_ok
  | some second =>
    rw [hsecond] at h
    cases h
    exact ⟨rfl, rfl, rfl, rfl⟩

/-- A workshop is made for the parts of its target. -/
theorem ofTarget_eq_ok {workshop : Workshop} (h : Workshop.ofTarget t = .ok workshop) :
    ∃ plan, t.plan = .ok plan ∧ workshop = .ofPlan t plan := by
  cases hplan : t.plan with
  | error f =>
    rw [Workshop.ofTarget, hplan] at h
    cases h
  | ok plan =>
    rw [Workshop.ofTarget, hplan] at h
    cases h
    exact ⟨plan, rfl, rfl⟩

/-- A workshop that is made for an orderly target is in order. -/
theorem Orderly.workshop (ht : t.Orderly dir) (hplain : dir.Plain)
    (hmisses : dir.Misses (imagePath dir)) {workshop : Workshop}
    (h : Workshop.ofTarget t = .ok workshop) : workshop.Orderly dir := by
  obtain ⟨rfl, hcompiler, hboard, happlication, hloader⟩ := ht
  obtain ⟨plan, hplan, rfl⟩ := ofTarget_eq_ok h
  obtain ⟨hb, hc, ha, hl⟩ := plan_eq_ok hplan
  refine ⟨⟨⟨.inl rfl, hplain, hmisses, hcompiler _ hc, ?_⟩, rfl⟩, ?_⟩
  · exact List.forall_mem_cons.2 ⟨hboard _ hb, happlication _ ha⟩
  · rintro _ hsome
    obtain ⟨l, hl', rfl⟩ := Option.map_eq_some_iff.1 hsome
    rw [hl'] at hl
    refine ⟨⟨⟨.inr rfl, hplain, hmisses, hcompiler _ hc, ?_⟩, rfl⟩, rfl⟩
    exact List.forall_mem_cons.2 ⟨hboard _ hb, hloader _ hl⟩

end Target

/-- The build has a loader and the application beside it to make. -/
def Workshop.isSplit (workshop : Workshop) : Bool :=
  workshop.loader.isSome && workshop.plan.loader.isSome

theorem Target.isSplit_of_ofTarget {t : Target} {workshop : Workshop}
    (h : Workshop.ofTarget t = .ok workshop) : workshop.isSplit = t.isSplit := by
  obtain ⟨plan, hplan, rfl⟩ := ofTarget_eq_ok h
  obtain ⟨-, -, -, hl⟩ := plan_eq_ok hplan
  rw [isSplit, hl]
  simp [Workshop.isSplit, Workshop.ofPlan]

end DualImage
