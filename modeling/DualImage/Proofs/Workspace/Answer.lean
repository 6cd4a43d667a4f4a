import DualImage.LoaderImage.Exports
import DualImage.Proofs.Workspace.Action

/-! Actions whose outcome is already settled by what they are given: they may speak or look, and the
files stay as they are. -/
namespace DualImage
variable {α β : Type}

/-- Nothing but the console differs. -/
def Spoken (w w' : World) : Prop := ∃ console, w' = { w with console }

/-- Nothing but the console and the record of commands differs. -/
def Unmoved (w w' : World) : Prop := ∃ console commands, w' = { w with console, commands }

instance : IsPreorder World Spoken where
  refl w := ⟨w.console, rfl⟩
  trans _ _ _ := by
    rintro ⟨c, rfl⟩ ⟨c', rfl⟩
    exact ⟨c', rfl⟩

instance : IsPreorder World Unmoved where
  refl w := ⟨w.console, w.commands, rfl⟩
  trans _ _ _ := by
    rintro ⟨c, m, rfl⟩ ⟨c', m', rfl⟩
    exact ⟨c', m', rfl⟩

theorem Spoken.unmoved {w w' : World} (h : Spoken w w') : Unmoved w w' := by
  obtain ⟨c, rfl⟩ := h
  exact ⟨c, w.commands, rfl⟩

theorem Unmoved.symm {w w' : World} (h : Unmoved w w') : Unmoved w' w := by
  obtain ⟨c, m, rfl⟩ := h
  exact ⟨w.console, w.commands, rfl⟩

theorem Unmoved.disk {w w' : World} (h : Unmoved w w') : w'.disk = w.disk := by
  obtain ⟨c, m, rfl⟩ := h
  rfl

theorem Unmoved.tools {w w' : World} (h : Unmoved w w') : w'.tools = w.tools := by
  obtain ⟨c, m, rfl⟩ := h
  rfl

theorem World.lift_eq_ok_iff {r : Except Failure α} {w w' : World} {x : α} :
    World.lift r w = .ok x w' ↔ r = .ok x ∧ w' = w := by
  cases r with
  | error f => exact iff_of_false (by rintro ⟨⟩) (by rintro ⟨⟨⟩, -⟩)
  | ok y =>
    constructor
    · rintro ⟨⟩
      exact ⟨rfl, rfl⟩
    · rintro ⟨⟨⟩, rfl⟩
      rfl

/-- The table of what a dump shows. -/
def Listing.Origin.tableOf (o : Origin) : Option String → Except Failure SymbolTable
  | none => .error .wrongKind
  | some text => .ok (o.table text)

theorem Listing.Origin.bind_tableOf_eq_ok_iff {o : Origin} {shown : Except Failure (Option String)}
    {t : SymbolTable} :
    (shown >>= o.tableOf) = .ok t ↔ ∃ text, shown = .ok (some text) ∧ t = o.table text := by
  rw [Except.bind_eq_ok_iff]
  constructor
  · rintro ⟨_ | text, hshown, htable⟩
    · cases htable
    · cases htable
      exact ⟨text, hshown, rfl⟩
  · rintro ⟨text, hshown, rfl⟩
    exact ⟨some text, hshown, rfl⟩

/-- The outcome together with the world that is left. -/
def outcomeIn : Except Failure α → World → EStateM.Result Failure World α
  | .ok x, w => .ok x w
  | .error f, w => .error f w

/-- In this world the action ends with the given outcome, and what it leaves is related to it. -/
def Answers (R : World → World → Prop) (a : Action α) (r : Except Failure α) (w : World) : Prop :=
  ∃ w', R w w' ∧ a w = outcomeIn r w'

namespace Answers
open World
variable {R : World → World → Prop} {w : World}

theorem mono {S : World → World → Prop} {a : Action α} {r : Except Failure α}
    (h : Answers R a r w) (hRS : ∀ w', R w w' → S w w') : Answers S a r w := by
  obtain ⟨w', hw, h⟩ := h
  exact ⟨w', hRS w' hw, h⟩

theorem of_ok {a : Action α} {r : Except Failure α} (h : Answers R a r w) {x : α} {w' : World}
    (ha : a w = .ok x w') : r = .ok x ∧ R w w' := by
  obtain ⟨w'', hw, h⟩ := h
  rw [ha] at h
  cases r with
  | ok y =>
    cases h
    exact ⟨rfl, hw⟩
  | error f => cases h

theorem of_error {a : Action α} {r : Except Failure α} (h : Answers R a r w) {f : Failure}
    {w' : World} (ha : a w = .error f w') : r = .error f ∧ R w w' := by
  obtain ⟨w'', hw, h⟩ := h
  rw [ha] at h
  cases r with
  | ok y => cases h
  | error g =>
    cases h
    exact ⟨rfl, hw⟩

section
variable [IsPreorder World R]

theorem pure (x : α) : Answers R (pure x) (.ok x) w := ⟨w, refl_of R w, rfl⟩

theorem throw (f : Failure) : Answers R (throw f : Action α) (.error f) w := ⟨w, refl_of R w, rfl⟩

theorem lift (r : Except Failure α) : Answers R (lift r) r w := by
  cases r with
  | ok x => exact .pure x
  | error f => exact .throw f

theorem andThen {a : Action α} {f : α → Action β} {x : α} {r : Except Failure β}
    (ha : Answers R a (.ok x) w) (hf : ∀ w', R w w' → Answers R (f x) r w') :
    Answers R (a >>= f) r w := by
  obtain ⟨w', hw, h⟩ := ha
  obtain ⟨w'', hw', h'⟩ := hf w' hw
  exact ⟨w'', trans_of R hw hw', (Action.bind_of_ok h).trans h'⟩

omit [IsPreorder World R] in
theorem failing {a : Action α} {f : α → Action β} {e : Failure} (ha : Answers R a (.error e) w) :
    Answers R (a >>= f) (.error e) w := by
  obtain ⟨w', hw, h⟩ := ha
  exact ⟨w', hw, Action.bind_of_error h⟩

theorem bind {a : Action α} {f : α → Action β} {r : Except Failure α} {k : α → Except Failure β}
    (ha : Answers R a r w) (hf : ∀ x w', R w w' → Answers R (f x) (k x) w') :
    Answers R (a >>= f) (r >>= k) w := by
  cases r with
  | error e => exact ha.failing
  | ok x => exact ha.andThen (hf x)

end

theorem say (level : Int) (message : Text) : Answers Spoken (say level message) (.ok ()) w :=
  ⟨{ w with console := w.console.say level message }, ⟨_, rfl⟩, rfl⟩

theorem sayAll (level : Int) (messages : List Text) :
    Answers Spoken (sayAll level messages) (.ok ()) w := by
  induction messages generalizing w with
  | nil => exact .pure ()
  | cons m rest ih => exact (say level m).andThen fun _ _ => ih

theorem compare (packagesCount : Bool) (a b : SymbolTable) :
    Answers Spoken (compare packagesCount a b) (.ok (a.compare packagesCount b)) w :=
  (sayAll ..).andThen fun _ _ => .pure _

theorem refuseConflicts (pairs : List SymbolPair) :
    Answers Spoken (refuseConflicts pairs)
      (if pairs = [] then .ok () else .error (.conflicts pairs)) w := by
  unfold World.refuseConflicts
  cases pairs with
  | nil => exact .pure ()
  | cons p rest => exact (sayAll ..).andThen fun _ _ => .throw _

theorem settle (m : SymbolTable.Merge) :
    Answers Spoken (settle m)
      (match m.clash with
        | none => .ok m.target
        | some p => .error (.clash p.name p.first.package p.second.package)) w := by
  unfold World.settle
  refine (sayAll ..).andThen fun _ _ => ?_
  cases m.clash with
  | none => exact .pure _
  | some p => exact (say ..).andThen fun _ _ => .throw _

theorem readListing (o : Listing.Origin) (text : Option String) :
    Answers Spoken (readListing o text) (o.tableOf text) w := by
  cases text with
  | none => exact .throw _
  | some text => exact (sayAll ..).andThen fun _ _ => .pure _

end Answers
end DualImage
