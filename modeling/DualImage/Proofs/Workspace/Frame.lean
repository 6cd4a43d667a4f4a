import DualImage.Proofs.Workspace.Command

/-! Steps that keep clear of a path: what the path leads to stays what it is. -/
namespace DualImage

namespace Disk
variable {p q : Path} {d d' : Disk} {place : Place}

/-- What the path leads to is the same, and the clock has not gone back. -/
structure Spares (p : Path) (d d' : Disk) : Prop where
  here : d'.here = d.here
  clock : d.clock ≤ d'.clock
  entry : d'.files.find? (p.place d.here) = d.files.find? (p.place d.here)

instance : IsPreorder Disk (Spares p) where
  refl _ := ⟨rfl, Int.le_refl _, rfl⟩
  trans _ _ _ h h' := by
    refine ⟨h'.here.trans h.here, Int.le_trans h.clock h'.clock, ?_⟩
    have hentry := h'.entry
    rw [h.here] at hentry
    exact hentry.trans h.entry

theorem spares_timeFor (d : Disk) (time : Option Int) : Spares p d (d.timeFor time).2 := by
  cases time with
  | none => exact ⟨rfl, Int.le_of_lt (Int.lt_succ _), rfl⟩
  | some time => exact refl_of (Spares p) d

/-- The place is neither where the path leads nor around it. -/
private def Apart (p : Path) (d : Disk) (place : Place) : Prop :=
  place ≠ p.place d.here ∧ place.dropLast ≠ p.place d.here

private theorem apart_of_locate (hq : q.Misses p) (h : d.locate q = .ok place) :
    Apart p d place := by
  rw [eq_place_of_locate h]
  exact hq.place_ne d.here

private theorem spares_put (hp : Apart p d place) (e : Entry) : Spares p d (d.put place e) where
  here := by unfold put; split <;> rfl
  clock := by unfold put; split <;> exact Int.le_refl _
  entry := by
    rw [find?_put, if_neg hp.1.symm, if_neg]
    exact fun h => hp.2 h.1.symm

private theorem spares_putTimed (hp : Apart p d place) (time : Option Int) (e : Entry) :
    Spares p d ((d.timeFor time).2.put place e) := by
  have htime := spares_timeFor (p := p) d time
  refine trans_of (Spares p) htime (spares_put ?_ e)
  unfold Apart
  rw [htime.here]
  exact hp

theorem spares_write {text : String} {time : Option Int} (hq : q.Misses p)
    (h : d.write q text time = .ok d') : Spares p d d' := by
  obtain ⟨place, hplace, h⟩ := Except.bind_eq_ok_iff.1 h
  rw [writeOn] at h
  cases hdir : (d.files.find? place).any (·.isDirectory) with
  | true =>
    rw [hdir] at h
    cases h
  | false =>
    rw [hdir] at h
    cases h
    exact spares_putTimed (apart_of_locate hq hplace) time _

theorem spares_touch {time : Option Int} (hq : q.Misses p) (h : d.touch q time = .ok d') :
    Spares p d d' := by
  obtain ⟨place, hplace, h⟩ := Except.bind_eq_ok_iff.1 h
  cases h
  exact spares_putTimed (apart_of_locate hq hplace) time _

theorem spares_delete (hq : q.Misses p) (h : d.delete q = .ok d') : Spares p d d' := by
  obtain ⟨place, hplace, h⟩ := Except.bind_eq_ok_iff.1 h
  obtain ⟨hne, habove⟩ := apart_of_locate hq hplace
  split at h
  · cases h
  · cases h
  · cases h
    refine ⟨rfl, Int.le_refl _, ?_⟩
    simp only [renewDirectory]
    rw [FileTree.find?_stamp, if_neg habove.symm, FileTree.find?_erase, if_neg hne.symm]

private theorem spares_makeDirectory (hq : q.Misses p) (h : d.makeDirectory q = .ok d') :
    Spares p d d' := by
  obtain ⟨place, hplace, h⟩ := Except.bind_eq_ok_iff.1 h
  split at h
  · cases h
  · cases h
    exact spares_put (apart_of_locate hq hplace) _

private theorem spares_ensureDirectory (hq : q.Misses p) (h : d.ensureDirectory q = .ok d') :
    Spares p d d' := by
  unfold ensureDirectory at h
  split at h
  · next hmake =>
    cases h
    exact spares_makeDirectory hq hmake
  · cases h
  · split at h
    · cases h
      exact refl_of (Spares p) d
    · cases h

theorem spares_ensureDirectories (hq : q.Misses p) : Spares p d (d.ensureDirectories q).2 := by
  fun_induction ensureDirectories d q with
  | case1 q d' h => exact spares_ensureDirectory hq h
  | case3 q hmissing hparts d₁ habove d₂ hagain ih =>
    have hfirst := ih hq.parent
    rw [habove] at hfirst
    exact trans_of (Spares p) hfirst (spares_ensureDirectory hq hagain)
  | case4 q hmissing hparts d₁ habove fault hagain ih
  | case5 q hmissing hparts fault d₁ habove ih =>
    have hfirst := ih hq.parent
    rw [habove] at hfirst
    exact hfirst
  | case2 | case6 => exact refl_of (Spares p) d

theorem spares_overwrite {write : Writer} (text : Text)
    (hwrite : ∀ s time d', write s time = .ok d' → Spares p d d') :
    Spares p d (d.overwrite text write).2 := by
  unfold overwrite
  cases text.string? with
  | none =>
    dsimp only
    split
    · next h => exact hwrite _ _ _ h
    · exact refl_of (Spares p) d
  | some s =>
    dsimp only
    split
    · next h => exact hwrite _ _ _ h
    · exact refl_of (Spares p) d

theorem spares_writeIfChanged (hq : q.Misses p) (text : Text) :
    Spares p d (d.writeIfChanged q text).2 := by
  have hwrite : Spares p d (d.overwrite text (d.write q)).2 :=
    spares_overwrite text fun _ _ _ => spares_write hq
  unfold writeIfChanged replace
  split
  · split
    · exact refl_of (Spares p) d
    · exact hwrite
  · exact hwrite
  · exact refl_of (Spares p) d

end Disk

namespace World
variable {p : Path}

/-- What the path leads to is the same, and so are the tools. -/
structure Spares (p : Path) (w w' : World) : Prop where
  disk : Disk.Spares p w.disk w'.disk
  tools : w'.tools = w.tools

instance : IsPreorder World (Spares p) where
  refl w := ⟨refl_of (Disk.Spares p) w.disk, rfl⟩
  trans _ _ _ h h' := ⟨trans_of (Disk.Spares p) h.disk h'.disk, h'.tools.trans h.tools⟩

end World

section
variable {w w' : World} {p : Path}

theorem Unmoved.spares (h : Unmoved w w') : World.Spares p w w' := by
  obtain ⟨console, commands, rfl⟩ := h
  exact ⟨refl_of (Disk.Spares p) w.disk, rfl⟩

/-- An action with a settled outcome spares every path. -/
theorem Answers.keeps {α : Type} {a : Action α} {r : World → Except Failure α}
    (h : ∀ w, Answers Unmoved a (r w) w) : Keeps (World.Spares p) a := by
  intro w
  obtain ⟨w', hw, ha⟩ := h w
  rw [ha]
  cases r w <;> exact hw.spares

theorem Answers.keeps_of_spoken {α : Type} {a : Action α} {r : World → Except Failure α}
    (h : ∀ w, Answers Spoken a (r w) w) : Keeps (World.Spares p) a :=
  Answers.keeps fun w => (h w).mono fun _ => Spoken.unmoved

end

namespace Keeps
open World (Spares)
variable {p q : Path} {c : Command}

theorem say (level : Int) (message : Text) : Keeps (Spares p) (World.say level message) :=
  Answers.keeps_of_spoken fun _ => .say level message

theorem sayAll (level : Int) (messages : List Text) :
    Keeps (Spares p) (World.sayAll level messages) :=
  Answers.keeps_of_spoken fun _ => .sayAll level messages

theorem lift {α : Type} (r : Except Failure α) : Keeps (Spares p) (World.lift r) :=
  Answers.keeps_of_spoken fun _ => .lift r

/-- What follows may count on the outcome that it needs. -/
theorem lift_bind {R : World → World → Prop} [IsPreorder World R] {α β : Type}
    {r : Except Failure α} {f : α → Action β} (h : ∀ x, r = .ok x → Keeps R (f x)) :
    Keeps R (World.lift r >>= f) := by
  cases hr : r with
  | error e => exact fun w => refl_of R w
  | ok x => exact h x hr

theorem readListing (o : Listing.Origin) (text : Option String) :
    Keeps (Spares p) (World.readListing o text) :=
  Answers.keeps_of_spoken fun _ => .readListing o text

theorem dumpSymbols (c : Compiler) (artifact : Path) :
    Keeps (Spares p) (c.dumpSymbols artifact) :=
  Answers.keeps fun _ => (Answers.dumpSymbols c artifact).mono fun _ => World.Quiet.unmoved

theorem isStale (output : Path) (inputs : List Path) :
    Keeps (Spares p) (World.isStale output inputs) := by
  refine Keeps.get.bind fun w => ?_
  cases w.disk.staleness? output inputs with
  | error f => exact .throw f
  | ok s? =>
    cases s? with
    | none => exact .pure false
    | some s => exact (say Console.verbose s.remark).bind fun _ => .pure true

theorem attempt {R : World → World → Prop} {α : Type}
    {step : Disk → Except FileFault α × Disk} (h : ∀ w, R w { w with disk := (step w.disk).2 }) :
    Keeps R (World.attempt step) := by
  intro w
  have hw := h w
  rcases hs : step w.disk with ⟨_ | _, d⟩
  · rw [World.attempt_of_error hs]
    rw [hs] at hw
    exact hw
  · rw [World.attempt_of_ok hs]
    rw [hs] at hw
    exact hw

theorem change {R : World → World → Prop} [IsPreorder World R]
    {step : Disk → Except FileFault Disk}
    (h : ∀ w d, step w.disk = .ok d → R w { w with disk := d }) : Keeps R (World.change step) := by
  refine attempt fun w => ?_
  cases hd : step w.disk with
  | ok d => exact h w d hd
  | error fault => exact refl_of R w

theorem ensureDirectories (hq : q.Misses p) : Keeps (Spares p) (World.ensureDirectories q) :=
  attempt fun _ => ⟨Disk.spares_ensureDirectories hq, rfl⟩

theorem writeIfChanged (hq : q.Misses p) (text : Text) :
    Keeps (Spares p) (World.writeIfChanged q text) :=
  attempt fun _ => ⟨Disk.spares_writeIfChanged hq text, rfl⟩

theorem failingAs {R : World → World → Prop} {a : Action Unit} (ha : Keeps R a) :
    Keeps R (World.failingAs c q a) := by
  intro w
  have hw := ha w
  unfold World.failingAs
  split
  · next h =>
    rw [h] at hw
    exact hw
  · exact hw

private theorem renew (hq : q.Misses p) : Keeps (Spares p) (World.renew c q) :=
  (failingAs (ensureDirectories hq.parent)).bind fun _ =>
    failingAs (change fun _ _ h => ⟨Disk.spares_touch hq h, rfl⟩)

/-- A command whose output keeps clear of a path spares it. -/
theorem run (hc : ∀ q, c.output? = some q → q.Misses p) : Keeps (Spares p) (World.run c) := by
  intro w
  have hstarted : Spares p w (w.started c) := (World.unmoved_started w c).spares
  by_cases hplain : c.output? = none ∨ w.tools.rule? c ≠ none
  · rw [World.run_eq_reply hplain]
    cases w.tools.reply c <;> exact hstarted
  · obtain ⟨hout, hrule⟩ := not_or.1 hplain
    obtain ⟨q, hq⟩ := Option.ne_none_iff_exists'.1 hout
    rw [World.run_eq_renew (not_not.1 hrule) hq]
    exact trans_of (Spares p) hstarted (((renew (hc q hq)).bind fun _ => .pure _) _)

end Keeps
end DualImage
