import DualImage.Half
import Mathlib.Order.Defs.Unbundled

/-! Actions step by step: what the outcome of a sequence says about its parts, and relations between
the state that an action finds and the one that it leaves. -/
namespace DualImage
variable {ε σ τ α β : Type}

theorem Except.bind_eq_ok_iff {r : Except ε α} {k : α → Except ε β} {y : β} :
    (r >>= k) = .ok y ↔ ∃ x, r = .ok x ∧ k x = .ok y := by
  cases r <;> simp [bind, Except.bind]

/-- A list of results has one for every element, and no others. -/
theorem Except.mem_of_mapM_eq_ok {f : α → Except ε β} {xs : List α} {ys : List β}
    (h : xs.mapM f = .ok ys) :
    (∀ x ∈ xs, ∃ y ∈ ys, f x = .ok y) ∧ ∀ y ∈ ys, ∃ x ∈ xs, f x = .ok y := by
  induction xs generalizing ys with
  | nil =>
    cases h
    exact ⟨List.forall_mem_nil _, List.forall_mem_nil _⟩
  | cons x rest ih =>
    rw [List.mapM_cons, bind_eq_ok_iff] at h
    obtain ⟨y, hy, h⟩ := h
    obtain ⟨more, hmore, hcons⟩ := bind_eq_ok_iff.1 h
    cases hcons
    obtain ⟨hall, honly⟩ := ih hmore
    constructor
    · refine List.forall_mem_cons.2 ⟨⟨y, List.mem_cons_self, hy⟩, fun x' hx' => ?_⟩
      obtain ⟨y', hy', h'⟩ := hall x' hx'
      exact ⟨y', List.mem_cons_of_mem y hy', h'⟩
    · refine List.forall_mem_cons.2 ⟨⟨x, List.mem_cons_self, hy⟩, fun y' hy' => ?_⟩
      obtain ⟨x', hx', h'⟩ := honly y' hy'
      exact ⟨x', List.mem_cons_of_mem x hx', h'⟩

/-- The state that an action leaves, whether it succeeded or not. -/
def leaves : EStateM.Result ε σ α → σ
  | .ok _ s => s
  | .error _ s => s

/-- The answer of an action that succeeded. -/
def answer? : EStateM.Result ε σ α → Option α
  | .ok x _ => some x
  | .error .. => none

theorem eq_ok_of_answer? {r : EStateM.Result ε σ α} {x : α} (h : answer? r = some x) :
    r = .ok x (leaves r) := by
  cases r with
  | ok y s =>
    cases h
    rfl
  | error e s => cases h

theorem eq_error_of_answer? {r : EStateM.Result ε σ α} (h : answer? r = none) :
    ∃ e, r = .error e (leaves r) := by
  cases r with
  | ok y s => cases h
  | error e s => exact ⟨e, rfl⟩

namespace Action
variable {a : EStateM ε σ α} {f : α → EStateM ε σ β} {s u : σ}

theorem bind_apply (a : EStateM ε σ α) (f : α → EStateM ε σ β) (s : σ) :
    (a >>= f) s = match a s with
      | .ok x t => f x t
      | .error e t => .error e t := rfl

theorem get_bind_apply (f : σ → EStateM ε σ β) (s : σ) : (MonadState.get >>= f) s = f s s := rfl

theorem bind_of_ok {x : α} {t : σ} (h : a s = .ok x t) : (a >>= f) s = f x t := by
  rw [bind_apply, h]

theorem bind_of_error {e : ε} {t : σ} (h : a s = .error e t) : (a >>= f) s = .error e t := by
  rw [bind_apply, h]

theorem bind_eq_ok_iff {y : β} :
    (a >>= f) s = .ok y u ↔ ∃ x t, a s = .ok x t ∧ f x t = .ok y u := by
  cases h : a s with
  | ok x t =>
    rw [bind_of_ok h]
    exact ⟨fun hf => ⟨x, t, rfl, hf⟩, fun ⟨_, _, hx, hf⟩ => by cases hx; exact hf⟩
  | error e t => simp [bind_of_error h]

theorem bind_eq_error_iff {e : ε} :
    (a >>= f) s = .error e u ↔ a s = .error e u ∨ ∃ x t, a s = .ok x t ∧ f x t = .error e u := by
  cases h : a s with
  | ok x t =>
    rw [bind_of_ok h]
    simp only [reduceCtorEq, false_or]
    exact ⟨fun hf => ⟨x, t, rfl, hf⟩, fun ⟨_, _, hx, hf⟩ => by cases hx; exact hf⟩
  | error e' t => simp [bind_of_error h]

theorem forM_cons_eq_ok_iff {g : α → EStateM ε σ PUnit} {x : α} {xs : List α} :
    (x :: xs).forM g s = .ok ⟨⟩ u ↔ ∃ t, g x s = .ok ⟨⟩ t ∧ xs.forM g t = .ok ⟨⟩ u := by
  refine (bind_eq_ok_iff : (g x >>= fun _ => xs.forM g) s = .ok ⟨⟩ u ↔ _).trans ?_
  constructor
  · rintro ⟨⟨⟩, t, h⟩
    exact ⟨t, h⟩
  · rintro ⟨t, h⟩
    exact ⟨⟨⟩, t, h⟩

theorem forM_append_eq_ok_iff {g : α → EStateM ε σ PUnit} {xs ys : List α} :
    (xs ++ ys).forM g s = .ok ⟨⟩ u ↔ ∃ t, xs.forM g s = .ok ⟨⟩ t ∧ ys.forM g t = .ok ⟨⟩ u := by
  induction xs generalizing s with
  | nil =>
    refine ⟨fun h => ⟨s, rfl, h⟩, ?_⟩
    rintro ⟨t, ht, h⟩
    cases ht
    exact h
  | cons x xs ih =>
    simp only [List.cons_append, forM_cons_eq_ok_iff, ih]
    constructor
    · rintro ⟨t, hx, t', hxs, hys⟩
      exact ⟨t', ⟨t, hx, hxs⟩, hys⟩
    · rintro ⟨t', ⟨t, hx, hxs⟩, hys⟩
      exact ⟨t, hx, t', hxs, hys⟩

/-- A sequence that succeeds has done each of its steps, some before it and some after it. -/
theorem forM_eq_ok_of_mem {g : α → EStateM ε σ PUnit} {x : α} {xs : List α} (hx : x ∈ xs)
    (h : xs.forM g s = .ok ⟨⟩ u) : ∃ front back t t', front ⊆ xs ∧ back ⊆ xs ∧
      front.forM g s = .ok ⟨⟩ t ∧ g x t = .ok ⟨⟩ t' ∧ back.forM g t' = .ok ⟨⟩ u := by
  induction xs generalizing s with
  | nil => cases hx
  | cons y rest ih =>
    obtain ⟨t, hy, hrest⟩ := forM_cons_eq_ok_iff.1 h
    rcases List.mem_cons.1 hx with rfl | hx
    · exact ⟨[], rest, s, t, List.nil_subset _, List.subset_cons_self .., rfl, hy, hrest⟩
    · obtain ⟨front, back, t₁, t₂, hsub, hsub', hfront, hstep, hback⟩ := ih hx hrest
      exact ⟨y :: front, back, t₁, t₂, List.cons_subset_cons y hsub,
        List.subset_cons_of_subset y hsub', forM_cons_eq_ok_iff.2 ⟨t, hy, hfront⟩, hstep, hback⟩

/-- What every step keeps holds after a sequence that succeeds. -/
theorem forM_preserves {g : α → EStateM ε σ PUnit} {xs : List α} {I : σ → Prop}
    (hstep : ∀ x ∈ xs, ∀ s t, I s → g x s = .ok ⟨⟩ t → I t) (hs : I s)
    (h : xs.forM g s = .ok ⟨⟩ u) : I u := by
  induction xs generalizing s with
  | nil =>
    cases h
    exact hs
  | cons x rest ih =>
    obtain ⟨hx, hrest⟩ := List.forall_mem_cons.1 hstep
    obtain ⟨t, ht, h⟩ := forM_cons_eq_ok_iff.1 h
    exact ih hrest (hx s t hs ht) h

/-- A sequence that fails has done the steps before the one that failed. -/
theorem forM_eq_error {g : α → EStateM ε σ PUnit} {xs : List α} {e : ε}
    (h : xs.forM g s = .error e u) : ∃ front x back t, xs = front ++ x :: back ∧
      front.forM g s = .ok ⟨⟩ t ∧ g x t = .error e u := by
  induction xs generalizing s with
  | nil => cases h
  | cons x rest ih =>
    rcases bind_eq_error_iff.1 h with hx | ⟨_, t, hx, hrest⟩
    · exact ⟨[], x, rest, s, rfl, rfl, hx⟩
    · obtain ⟨front, y, back, t', rfl, hfront, hy⟩ := ih hrest
      exact ⟨x :: front, y, back, t', rfl, forM_cons_eq_ok_iff.2 ⟨t, hx, hfront⟩, hy⟩

theorem discard_eq_ok_iff : discard a s = .ok PUnit.unit u ↔ ∃ x, a s = .ok x u := by
  have h : discard a s = match a s with
    | .ok _ t => .ok PUnit.unit t
    | .error e t => .error e t := rfl
  rw [h]
  cases a s <;> simp

theorem discard_eq_error_iff {e : ε} : discard a s = .error e u ↔ a s = .error e u := by
  have h : discard a s = match a s with
    | .ok _ t => .ok PUnit.unit t
    | .error e t => .error e t := rfl
  rw [h]
  cases a s <;> simp

end Action

theorem within_eq_ok_iff {part : σ → τ} {back : σ → τ → σ} {a : EStateM Failure τ α} {s u : σ}
    {y : α} : within part back a s = .ok y u ↔ ∃ t, a (part s) = .ok y t ∧ u = back s t := by
  unfold within
  cases a (part s) with
  | error e t => simp
  | ok x t =>
    constructor
    · rintro ⟨⟩
      exact ⟨t, rfl, rfl⟩
    · rintro ⟨_, ⟨⟩, rfl⟩
      rfl

theorem within_eq_error_iff {part : σ → τ} {back : σ → τ → σ} {a : EStateM Failure τ α} {s u : σ}
    {f : Failure} :
    within part back a s = .error f u ↔ ∃ t, a (part s) = .error f t ∧ u = back s t := by
  unfold within
  cases a (part s) with
  | ok x t => simp
  | error g t =>
    constructor
    · rintro ⟨⟩
      exact ⟨t, rfl, rfl⟩
    · rintro ⟨_, ⟨⟩, rfl⟩
      rfl

/-- The state that the action leaves is related to the one it finds. -/
def Keeps (R : σ → σ → Prop) (a : EStateM ε σ α) : Prop := ∀ s, R s (leaves (a s))

namespace Keeps
variable {R : σ → σ → Prop}

theorem ok {a : EStateM ε σ α} (h : Keeps R a) {s t : σ} {x : α} (hr : a s = .ok x t) : R s t := by
  have := h s
  rwa [hr] at this

theorem error {a : EStateM ε σ α} (h : Keeps R a) {s t : σ} {e : ε} (hr : a s = .error e t) :
    R s t := by
  have := h s
  rwa [hr] at this

theorem mono {S : σ → σ → Prop} {a : EStateM ε σ α} (h : Keeps R a) (hRS : ∀ s t, R s t → S s t) :
    Keeps S a :=
  fun s => hRS s _ (h s)

theorem modify {f : σ → σ} (h : ∀ s, R s (f s)) : Keeps R (modify f : EStateM ε σ Unit) := h

section
variable [IsPreorder σ R]

theorem pure (x : α) : Keeps R (pure x : EStateM ε σ α) := fun s => refl_of R s

theorem throw (e : ε) : Keeps R (throw e : EStateM ε σ α) := fun s => refl_of R s

theorem get : Keeps R (get : EStateM ε σ σ) := fun s => refl_of R s

/-- What a later action does may depend on what the earlier one gave, from the state it was in. -/
theorem bind_of_ok {a : EStateM ε σ α} {f : α → EStateM ε σ β} (ha : Keeps R a)
    (hf : ∀ s x t, a s = .ok x t → R t (leaves (f x t))) : Keeps R (a >>= f) := by
  intro s
  rw [Action.bind_apply]
  cases h : a s with
  | ok x t => exact trans_of R (ha.ok h) (hf s x t h)
  | error e t => exact ha.error h

theorem bind {a : EStateM ε σ α} {f : α → EStateM ε σ β} (ha : Keeps R a)
    (hf : ∀ x, Keeps R (f x)) : Keeps R (a >>= f) :=
  ha.bind_of_ok fun _ x t _ => hf x t

omit [IsPreorder σ R] in
/-- What follows may count on the state being the one that was read. -/
theorem get_bind {f : σ → EStateM ε σ α} (h : ∀ s, R s (leaves (f s s))) :
    Keeps R (MonadState.get >>= f) := h

omit [IsPreorder σ R] in
theorem discard {a : EStateM ε σ α} (ha : Keeps R a) :
    Keeps R (discard a : EStateM ε σ PUnit) := by
  intro s
  have hs := ha s
  have happly : (Functor.discard a : EStateM ε σ PUnit) s = match a s with
    | .ok _ t => .ok PUnit.unit t
    | .error e t => .error e t := rfl
  rw [happly]
  cases h : a s <;> rw [h] at hs <;> exact hs

omit [IsPreorder σ R] in
theorem ite {p : Prop} [Decidable p] {a b : EStateM ε σ α} (ha : Keeps R a) (hb : Keeps R b) :
    Keeps R (if p then a else b) := by
  split
  · exact ha
  · exact hb

theorem forM {f : α → EStateM ε σ PUnit} {xs : List α} (h : ∀ x ∈ xs, Keeps R (f x)) :
    Keeps R (xs.forM f) := by
  induction xs with
  | nil => exact .pure _
  | cons x xs ih =>
    obtain ⟨hx, hxs⟩ := List.forall_mem_cons.1 h
    exact hx.bind fun _ => ih hxs

end

/-- An action on a part keeps what its effect on the part keeps of the whole. -/
theorem within {S : τ → τ → Prop} {part : σ → τ} {back : σ → τ → σ} {a : EStateM Failure τ α}
    (h : Keeps S a) (hR : ∀ s t, S (part s) t → R s (back s t)) :
    Keeps R (within part back a) := by
  intro s
  have hs := h (part s)
  unfold DualImage.within
  cases ha : a (part s) with
  | ok x t =>
    rw [ha] at hs
    exact hR s t hs
  | error e t =>
    rw [ha] at hs
    exact hR s t hs

end Keeps
end DualImage
