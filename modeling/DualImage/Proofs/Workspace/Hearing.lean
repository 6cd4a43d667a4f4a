import DualImage.Proofs.Workspace.Command
import DualImage.Proofs.Workspace.Staleness

/-! Two runs side by side, from worlds that differ in their consoles. Whatever is said and however
much of it is shown, actions on a workspace do not look at the console, so both runs end alike. -/
namespace DualImage
variable {ε σ τ α β : Type} {R : σ → σ → Prop}

/-- The value or the error, without the state that is left. -/
def outcome : EStateM.Result ε σ α → Except ε α
  | .ok x _ => .ok x
  | .error e _ => .error e

@[simp] theorem outcome_outcomeIn (r : Except Failure α) (w : World) : outcome (outcomeIn r w) = r := by
  cases r <;> rfl

@[simp] theorem leaves_outcomeIn (r : Except Failure α) (w : World) : leaves (outcomeIn r w) = w := by
  cases r <;> rfl

/-- Both runs have the same outcome and leave related states. -/
structure Alike (R : σ → σ → Prop) (r r' : EStateM.Result ε σ α) : Prop where
  outcome : outcome r' = outcome r
  leaves : R (leaves r) (leaves r')

theorem Alike.ok {s t : σ} (x : α) (h : R s t) :
    Alike R (.ok x s : EStateM.Result ε σ α) (.ok x t) := ⟨rfl, h⟩

theorem Alike.error {s t : σ} (e : ε) (h : R s t) :
    Alike R (.error e s : EStateM.Result ε σ α) (.error e t) := ⟨rfl, h⟩

theorem Alike.eq_or {r r' : EStateM.Result ε σ α} (h : Alike R r r') :
    (∃ x s t, R s t ∧ r = .ok x s ∧ r' = .ok x t) ∨
      ∃ e s t, R s t ∧ r = .error e s ∧ r' = .error e t := by
  obtain ⟨houtcome, hleaves⟩ := h
  cases r with
  | ok x s =>
    cases r' with
    | ok y t =>
      cases houtcome
      exact .inl ⟨x, s, t, hleaves, rfl, rfl⟩
    | error e t => cases houtcome
  | error e s =>
    cases r' with
    | ok y t => cases houtcome
    | error f t =>
      cases houtcome
      exact .inr ⟨e, s, t, hleaves, rfl, rfl⟩

/-- The action does not look at what related states may differ in. -/
def Blind (R : σ → σ → Prop) (a : EStateM ε σ α) : Prop := ∀ s t, R s t → Alike R (a s) (a t)

namespace Blind

theorem pure (x : α) : Blind R (pure x : EStateM ε σ α) := fun _ _ => .ok x

theorem throw (e : ε) : Blind R (throw e : EStateM ε σ α) := fun _ _ => .error e

theorem modify {f : σ → σ} (hf : ∀ s t, R s t → R (f s) (f t)) :
    Blind R (modify f : EStateM ε σ PUnit) :=
  fun s t h => .ok _ (hf s t h)

theorem get_bind {f : σ → EStateM ε σ α} (hf : ∀ s t, R s t → Alike R (f s s) (f t t)) :
    Blind R (MonadState.get >>= f) := hf

theorem bind {a : EStateM ε σ α} {f : α → EStateM ε σ β} (ha : Blind R a)
    (hf : ∀ x, Blind R (f x)) : Blind R (a >>= f) := by
  intro s t h
  obtain ⟨x, u, v, h, hu, hv⟩ | ⟨e, u, v, h, hu, hv⟩ := (ha s t h).eq_or
  · rw [Action.bind_of_ok hu, Action.bind_of_ok hv]
    exact hf x u v h
  · rw [Action.bind_of_error hu, Action.bind_of_error hv]
    exact .error e h

theorem discard {a : EStateM ε σ α} (ha : Blind R a) :
    Blind R (discard a : EStateM ε σ PUnit) := by
  intro s t h
  have happly (s : σ) : (Functor.discard a : EStateM ε σ PUnit) s = match a s with
    | .ok _ t => .ok PUnit.unit t
    | .error e t => .error e t := rfl
  rw [happly, happly]
  obtain ⟨x, u, v, h, hu, hv⟩ | ⟨e, u, v, h, hu, hv⟩ := (ha s t h).eq_or
  · rw [hu, hv]
    exact .ok _ h
  · rw [hu, hv]
    exact .error e h

theorem ite {p : Prop} [Decidable p] {a b : EStateM ε σ α} (ha : Blind R a) (hb : Blind R b) :
    Blind R (if p then a else b) := by
  split
  · exact ha
  · exact hb

theorem forM {f : α → EStateM ε σ PUnit} {xs : List α} (hf : ∀ x, Blind R (f x)) :
    Blind R (xs.forM f) := by
  induction xs with
  | nil => exact .pure _
  | cons x xs ih => exact (hf x).bind fun _ => ih

theorem foldlM {f : β → α → EStateM ε σ β} {xs : List α} (hf : ∀ b x, Blind R (f b x)) (b : β) :
    Blind R (xs.foldlM f b) := by
  induction xs generalizing b with
  | nil => exact .pure b
  | cons x xs ih =>
    rw [List.foldlM_cons]
    exact (hf b x).bind ih

theorem within {S : τ → τ → Prop} {part : σ → τ} {back : σ → τ → σ} {a : EStateM Failure τ α}
    (ha : Blind S a) (hpart : ∀ s t, R s t → S (part s) (part t))
    (hback : ∀ s t u v, R s t → S u v → R (back s u) (back t v)) : Blind R (within part back a) := by
  intro s t h
  unfold DualImage.within
  obtain ⟨x, u, v, h', hu, hv⟩ | ⟨e, u, v, h', hu, hv⟩ := (ha _ _ (hpart s t h)).eq_or
  · rw [hu, hv]
    exact .ok x (hback s t u v h h')
  · rw [hu, hv]
    exact .error e (hback s t u v h h')

end Blind

/-- Nothing but the consoles differs, and these are the levels that they show. -/
structure Heard (tools : Tools) (level level' : Int) (w w' : World) : Prop where
  spoken : Spoken w w'
  tools : w.tools = tools
  here : w.console.verbosity = level
  there : w'.console.verbosity = level'

variable {tools : Tools} {level level' : Int}

namespace Heard
variable {w w' : World} (h : Heard tools level level' w w')
include h

theorem disk : w'.disk = w.disk := h.spoken.unmoved.disk

theorem tools' : w'.tools = tools := h.spoken.unmoved.tools.trans h.tools

/-- A change that looks at nothing but files keeps the worlds together. -/
theorem change (disk : Disk) :
    Heard tools level level' { w with disk } { w' with disk } := by
  obtain ⟨⟨console, rfl⟩, htools, hhere, hthere⟩ := h
  exact ⟨⟨console, rfl⟩, htools, hhere, hthere⟩

theorem say (n : Int) (message : Text) : Heard tools level level'
    { w with console := w.console.say n message }
    { w' with console := w'.console.say n message } := by
  obtain ⟨⟨console, rfl⟩, htools, hhere, hthere⟩ := h
  exact ⟨⟨_, rfl⟩, htools, (Console.verbosity_say ..).trans hhere,
    (Console.verbosity_say ..).trans hthere⟩

theorem started (c : Command) : Heard tools level level' (w.started c) (w'.started c) := by
  obtain ⟨⟨console, rfl⟩, htools, hhere, hthere⟩ := h
  exact ⟨⟨_, rfl⟩, htools, (Console.verbosity_say ..).trans hhere,
    (Console.verbosity_say ..).trans hthere⟩

end Heard

namespace Blind
open World
variable {a : Action α}

theorem lift (r : Except Failure α) : Blind (Heard tools level level') (lift r) := by
  cases r with
  | ok x => exact .pure x
  | error f => exact .throw f

theorem say (n : Int) (message : Text) : Blind (Heard tools level level') (say n message) :=
  .modify fun _ _ h => h.say n message

theorem sayAll (n : Int) (messages : List Text) :
    Blind (Heard tools level level') (sayAll n messages) :=
  .forM (say n)

theorem attempt (step : Disk → Except FileFault α × Disk) :
    Blind (Heard tools level level') (attempt step) := by
  intro w w' h
  rcases hs : step w.disk with ⟨fault | x, d⟩
  · rw [attempt_of_error hs, attempt_of_error (h.disk.symm ▸ hs)]
    exact .error _ (h.change d)
  · rw [attempt_of_ok hs, attempt_of_ok (h.disk.symm ▸ hs)]
    exact .ok x (h.change d)

theorem change (step : Disk → Except FileFault Disk) :
    Blind (Heard tools level level') (change step) := attempt _

theorem failingAs {c : Command} {p : Path} {a : Action Unit}
    (ha : Blind (Heard tools level level') a) :
    Blind (Heard tools level level') (failingAs c p a) := by
  intro w w' h
  unfold World.failingAs
  obtain ⟨x, u, v, h, hu, hv⟩ | ⟨f, u, v, h, hu, hv⟩ := (ha w w' h).eq_or
  · rw [hu, hv]
    exact .ok x h
  · rw [hu, hv]
    cases f <;> exact .error _ h

theorem run (c : Command) : Blind (Heard tools level level') (run c) := by
  have hrenew (p : Path) : Blind (Heard tools level level') (renew c p) :=
    (failingAs (attempt _)).bind fun _ => failingAs (change _)
  intro w w' h
  have hstarted := h.started c
  by_cases hplain : c.output? = none ∨ tools.rule? c ≠ none
  · rw [run_eq_reply (h.tools.symm ▸ hplain), run_eq_reply (h.tools'.symm ▸ hplain), h.tools,
      h.tools']
    exact ⟨by rw [outcome_outcomeIn, outcome_outcomeIn],
      by rw [leaves_outcomeIn, leaves_outcomeIn]; exact hstarted⟩
  · obtain ⟨hout, hrule⟩ := not_or.1 hplain
    obtain ⟨p, hp⟩ := Option.ne_none_iff_exists'.1 hout
    have hnone := not_not.1 hrule
    rw [run_eq_renew (h.tools.symm ▸ hnone) hp, run_eq_renew (h.tools'.symm ▸ hnone) hp, h.tools,
      h.tools']
    exact ((hrenew p).bind fun _ => .pure _) _ _ hstarted

theorem isStale (output : Path) (inputs : List Path) :
    Blind (Heard tools level level') (isStale output inputs) := by
  refine .get_bind fun w w' h => ?_
  rw [h.disk]
  cases w.disk.staleness? output inputs with
  | error f => exact .error f h
  | ok s? =>
    cases s? with
    | none => exact .ok false h
    | some s => exact ((say _ _).bind fun _ => .pure true) w w' h

theorem readListing (o : Listing.Origin) (text : Option String) :
    Blind (Heard tools level level') (readListing o text) := by
  cases text with
  | none => exact .throw _
  | some text => exact (sayAll _ _).bind fun _ => .pure _

theorem compare (packagesCount : Bool) (s t : SymbolTable) :
    Blind (Heard tools level level') (compare packagesCount s t) :=
  (sayAll _ _).bind fun _ => .pure _

theorem refuseConflicts (pairs : List SymbolPair) :
    Blind (Heard tools level level') (refuseConflicts pairs) := by
  unfold World.refuseConflicts
  cases pairs with
  | nil => exact .pure ()
  | cons p rest => exact (sayAll _ _).bind fun _ => .throw _

theorem settle (m : SymbolTable.Merge) : Blind (Heard tools level level') (settle m) := by
  unfold World.settle
  refine (sayAll _ _).bind fun _ => ?_
  cases m.clash with
  | none => exact .pure _
  | some p => exact (say _ _).bind fun _ => .throw _

end Blind
end DualImage
