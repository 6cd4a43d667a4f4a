import DualImage.Proofs.Workspace.Answer
import DualImage.Proofs.Workspace.Disk

/-! What the comparison of times says, and what a step that renews one place leaves of it. -/
namespace DualImage

namespace Disk
variable {d d' : Disk} {output p : Path} {inputs : List Path} {time : Int} {place : Place}

/-- The output is there with all its inputs, and no input is newer. -/
def Fresh (d : Disk) (output : Path) (inputs : List Path) : Prop :=
  ∃ e, d.entry output = .ok e ∧ ∀ p ∈ inputs, ∃ i, d.entry p = .ok i ∧ i.time ≤ e.time

/-- The output is not there, or some input is newer. -/
def Overdue (d : Disk) (output : Path) (inputs : List Path) : Prop :=
  d.entry output = .error .missing ∨
    ∃ e, d.entry output = .ok e ∧ ∃ p ∈ inputs, ∃ i, d.entry p = .ok i ∧ e.time < i.time

/-- The input is newer than the output, and all inputs before it are there and not newer. -/
def FirstNewer (d : Disk) (output : Path) (inputs : List Path) (p : Path) : Prop :=
  ∃ before after, inputs = before ++ p :: after ∧ d.Fresh output before ∧
    ∃ e i, d.entry output = .ok e ∧ d.entry p = .ok i ∧ e.time < i.time

/-- No file has a time to come, and no directory one after the time of the system. -/
def Timely (d : Disk) : Prop :=
  ∀ place e, d.files.find? place = some e →
    e.time ≤ if e.isDirectory then d.systemTime else d.clock

theorem timely_of_entries
    (h : ∀ x ∈ d.files.entries, x.2.time ≤ if x.2.isDirectory then d.systemTime else d.clock) :
    d.Timely := by
  intro place e he
  obtain ⟨x, hx, rfl⟩ := Option.map_eq_some_iff.1 he
  exact h x (List.mem_of_find?_eq_some hx)

theorem Overdue.not_fresh (h : d.Overdue output inputs) : ¬ d.Fresh output inputs := by
  rintro ⟨e, he, hinputs⟩
  rcases h with hmissing | ⟨e', he', p, hp, i, hi, hlt⟩
  · rw [hmissing] at he
    cases he
  · obtain ⟨i', hi', hle⟩ := hinputs p hp
    rw [he] at he'
    rw [hi] at hi'
    cases he'
    cases hi'
    omega

private theorem inputTime_eq_ok_iff :
    d.inputTime p = .ok time ↔ ∃ i, d.entry p = .ok i ∧ i.time = time := by
  unfold inputTime
  cases d.entry p with
  | ok e => simp [pure, Except.pure]
  | error fault => cases fault <;> simp [throw, throwThe, MonadExceptOf.throw]

private theorem newerThan?_eq_none_iff :
    d.newerThan? time inputs = .ok none ↔
      ∀ p ∈ inputs, ∃ i, d.entry p = .ok i ∧ i.time ≤ time := by
  induction inputs with
  | nil => simp [newerThan?, pure, Except.pure]
  | cons p rest ih =>
    rw [newerThan?, List.forall_mem_cons, ← ih, Except.bind_eq_ok_iff]
    constructor
    · rintro ⟨t, ht, hrest⟩
      obtain ⟨i, hi, rfl⟩ := inputTime_eq_ok_iff.1 ht
      split at hrest
      · cases hrest
      · next hle => exact ⟨⟨i, hi, Int.not_lt.1 hle⟩, hrest⟩
    · rintro ⟨⟨i, hi, hle⟩, hrest⟩
      exact ⟨i.time, inputTime_eq_ok_iff.2 ⟨i, hi, rfl⟩, by rw [if_neg (Int.not_lt.2 hle)]; exact hrest⟩

private theorem newerThan?_eq_some_iff :
    d.newerThan? time inputs = .ok (some p) ↔
      ∃ before after, inputs = before ++ p :: after ∧
        (∀ q ∈ before, ∃ i, d.entry q = .ok i ∧ i.time ≤ time) ∧
        ∃ i, d.entry p = .ok i ∧ time < i.time := by
  induction inputs with
  | nil =>
    refine iff_of_false nofun ?_
    rintro ⟨before, after, hsplit, -⟩
    simp at hsplit
  | cons first rest ih =>
    rw [newerThan?, Except.bind_eq_ok_iff]
    constructor
    · rintro ⟨t, ht, h⟩
      obtain ⟨i, hi, rfl⟩ := inputTime_eq_ok_iff.1 ht
      split at h
      · next hlt =>
        cases h
        exact ⟨[], rest, rfl, List.forall_mem_nil _, i, hi, hlt⟩
      · next hle =>
        obtain ⟨before, after, rfl, hbefore, hnewer⟩ := ih.1 h
        refine ⟨first :: before, after, rfl, ?_, hnewer⟩
        exact List.forall_mem_cons.2 ⟨⟨i, hi, Int.not_lt.1 hle⟩, hbefore⟩
    · rintro ⟨before, after, hsplit, hbefore, i, hi, hlt⟩
      cases before with
      | nil =>
        cases hsplit
        exact ⟨i.time, inputTime_eq_ok_iff.2 ⟨i, hi, rfl⟩, by rw [if_pos hlt]; rfl⟩
      | cons q before =>
        cases hsplit
        obtain ⟨⟨j, hj, hle⟩, hbefore⟩ := List.forall_mem_cons.1 hbefore
        refine ⟨j.time, inputTime_eq_ok_iff.2 ⟨j, hj, rfl⟩, ?_⟩
        rw [if_neg (Int.not_lt.2 hle)]
        exact ih.2 ⟨before, after, rfl, hbefore, i, hi, hlt⟩

private theorem outputTime?_eq_some_iff :
    d.outputTime? output = .ok (some time) ↔ ∃ e, d.entry output = .ok e ∧ e.time = time := by
  unfold outputTime?
  cases d.entry output with
  | ok e => simp [pure, Except.pure]
  | error fault => cases fault <;> simp [pure, Except.pure, throw, throwThe, MonadExceptOf.throw]

private theorem outputTime?_eq_none_iff :
    d.outputTime? output = .ok none ↔ d.entry output = .error .missing := by
  unfold outputTime?
  cases d.entry output with
  | ok e => simp [pure, Except.pure]
  | error fault => cases fault <;> simp [pure, Except.pure, throw, throwThe, MonadExceptOf.throw]

theorem staleness?_eq_none_iff : d.staleness? output inputs = .ok none ↔ d.Fresh output inputs := by
  unfold staleness? Fresh
  rw [Except.bind_eq_ok_iff]
  constructor
  · rintro ⟨time?, htime, h⟩
    cases time? with
    | none => cases h
    | some time =>
      obtain ⟨e, he, rfl⟩ := outputTime?_eq_some_iff.1 htime
      obtain ⟨newer?, hnewer, h⟩ := Except.bind_eq_ok_iff.1 h
      cases newer? with
      | none => exact ⟨e, he, newerThan?_eq_none_iff.1 hnewer⟩
      | some p => cases h
  · rintro ⟨e, he, hinputs⟩
    refine ⟨some e.time, outputTime?_eq_some_iff.2 ⟨e, he, rfl⟩, ?_⟩
    exact Except.bind_eq_ok_iff.2 ⟨none, newerThan?_eq_none_iff.2 hinputs, rfl⟩

theorem staleness?_eq_some_iff {s : Staleness} :
    d.staleness? output inputs = .ok (some s) ↔
      d.entry output = .error .missing ∧ s = .noOutput output ∨
        ∃ p, d.FirstNewer output inputs p ∧ s = .newerInput p output := by
  unfold staleness?
  rw [Except.bind_eq_ok_iff]
  constructor
  · rintro ⟨time?, htime, h⟩
    cases time? with
    | none =>
      cases h
      exact .inl ⟨outputTime?_eq_none_iff.1 htime, rfl⟩
    | some time =>
      obtain ⟨e, he, rfl⟩ := outputTime?_eq_some_iff.1 htime
      obtain ⟨newer?, hnewer, h⟩ := Except.bind_eq_ok_iff.1 h
      cases newer? with
      | none => cases h
      | some p =>
        cases h
        obtain ⟨before, after, hsplit, hbefore, i, hi, hlt⟩ := newerThan?_eq_some_iff.1 hnewer
        exact .inr ⟨p, ⟨before, after, hsplit, ⟨e, he, hbefore⟩, e, i, he, hi, hlt⟩, rfl⟩
  · rintro (⟨hmissing, rfl⟩ | ⟨p, ⟨before, after, hsplit, ⟨e, he, hbefore⟩, hnewer⟩, rfl⟩)
    · exact ⟨none, outputTime?_eq_none_iff.2 hmissing, rfl⟩
    · obtain ⟨e', i, he', hi, hlt⟩ := hnewer
      cases he.symm.trans he'
      refine ⟨some e.time, outputTime?_eq_some_iff.2 ⟨e, he, rfl⟩, ?_⟩
      have hnewer := newerThan?_eq_some_iff.2 ⟨before, after, hsplit, hbefore, i, hi, hlt⟩
      exact Except.bind_eq_ok_iff.2 ⟨some p, hnewer, rfl⟩

theorem staleness?_eq_some {s : Staleness} (h : d.staleness? output inputs = .ok (some s)) :
    d.Overdue output inputs := by
  rcases staleness?_eq_some_iff.1 h with ⟨hmissing, -⟩ | ⟨p, ⟨before, after, rfl, -, hnewer⟩, -⟩
  · exact .inl hmissing
  · obtain ⟨e, i, he, hi, hlt⟩ := hnewer
    exact .inr ⟨e, he, p, List.mem_append_right _ List.mem_cons_self, i, hi, hlt⟩

/-- Renewing a place beside the output makes nothing fresh: what was newer than the output stays
newer. -/
theorem Overdue.not_fresh_of_renewed (h : d.Overdue output inputs) (htimely : d.Timely)
    (hr : Renewed place d d') (hfile : ¬ d.files.IsDirectory place)
    (habove : d.files.IsDirectory place.dropLast)
    (hbeside : ∀ q, d.locate output = .ok q → q ≠ place ∧ q ≠ place.dropLast) :
    ¬ d'.Fresh output inputs := by
  rintro ⟨e, he, hinputs⟩
  obtain ⟨q, hq, hfind⟩ := entry_eq_ok_iff.1 he
  have hq' : d.locate output = .ok q := locate_mono hr.here.symm (fun q => (hr.directory q).1) hq
  obtain ⟨hne, hnotAbove⟩ := hbeside q hq'
  have hold : d.entry output = .ok e := by
    rcases hr.others q hne with hsame | ⟨-, hq, -⟩
    · exact entry_eq_ok_iff.2 ⟨q, hq', hsame ▸ hfind⟩
    · exact absurd hq hnotAbove
  rcases h with hmissing | ⟨e', he', p, hp, i, hi, hlt⟩
  · rw [hmissing] at hold
    cases hold
  · rw [hold] at he'
    cases he'
    obtain ⟨i', hi', hle⟩ := hinputs p hp
    obtain ⟨r, hr', hfindr⟩ := entry_eq_ok_iff.1 hi
    obtain ⟨r', hr'', hfindr'⟩ := entry_eq_ok_iff.1 hi'
    have hlocate := locate_mono hr.here (fun q => (hr.directory q).2) hr'
    rw [hlocate] at hr''
    cases hr''
    have hit := htimely r i hfindr
    by_cases hplace : r = place
    · subst hplace
      have hnot : i.isDirectory = false := by
        cases i with
        | file time text => rfl
        | directory time => exact absurd ⟨time, hfindr⟩ hfile
      obtain ⟨new, hnew, htime⟩ := hr.entry
      rw [hfindr'] at hnew
      cases hnew
      rw [hnot, if_neg Bool.false_ne_true] at hit
      rw [hr.clock] at htime
      omega
    · rcases hr.others r hplace with hsame | ⟨hstamp, rfl, -⟩
      · rw [hsame, hfindr] at hfindr'
        cases hfindr'
        omega
      · obtain ⟨time, htime⟩ := habove
        rw [hfindr] at htime
        cases htime
        rw [hstamp, hfindr] at hfindr'
        cases hfindr'
        exact absurd hit (by simp [Entry.stamp, Entry.time, Entry.isDirectory] at *; omega)

/-- An output that was just renewed is fresh when all its inputs are there, none of them newer than
the clock. -/
theorem fresh_renewed_iff (hr : Renewed place d d') (houtput : d.locate output = .ok place) :
    d'.Fresh output inputs ↔ ∀ p ∈ inputs, ∃ i, d'.entry p = .ok i ∧ i.time ≤ d'.clock := by
  obtain ⟨e, hentry, htime⟩ := hr.entry_of_locate houtput
  rw [← htime]
  constructor
  · rintro ⟨e', he', hinputs⟩
    rw [hentry] at he'
    cases he'
    exact hinputs
  · intro hinputs
    exact ⟨e, hentry, hinputs⟩

/-- Writing what differs fails and changes nothing, or finds the text there, or writes it. -/
theorem writeIfChanged_cases (d : Disk) (p : Path) (text : String) :
    (∃ fault, d.writeIfChanged p text = (.error fault, d)) ∨
      ∃ place, d.locate p = .ok place ∧ (d.writeIfChanged p text = (.ok false, d) ∨
        ∃ d', d.writeIfChanged p text = (.ok true, d') ∧ ¬ d.files.IsDirectory place ∧
          Renewed place d d') := by
  have hwrite : (∃ fault, d.overwrite text (d.write p) = (.error fault, d)) ∨
      ∃ place, d.locate p = .ok place ∧ ∃ d', d.overwrite text (d.write p) = (.ok true, d') ∧
        ¬ d.files.IsDirectory place ∧ Renewed place d d' := by
    simp only [overwrite, Text.string?_ofString]
    cases h : d.write p text none with
    | error fault => exact .inl ⟨fault, rfl⟩
    | ok d' =>
      obtain ⟨place, hplace, hfile, hr⟩ := write_eq_ok h
      exact .inr ⟨place, hplace, d', rfl, hfile, hr⟩
  have hanew : (∃ fault, d.overwrite text (d.write p) = (.error fault, d)) ∨
      ∃ place, d.locate p = .ok place ∧ (d.overwrite text (d.write p) = (.ok false, d) ∨
        ∃ d', d.overwrite text (d.write p) = (.ok true, d') ∧ ¬ d.files.IsDirectory place ∧
          Renewed place d d') := by
    rcases hwrite with hfail | ⟨place, hplace, h⟩
    · exact .inl hfail
    · exact .inr ⟨place, hplace, .inr h⟩
  unfold writeIfChanged replace
  cases hread : d.read p with
  | error fault =>
    cases fault with
    | missing => exact hanew
    | _ => exact .inl ⟨_, rfl⟩
  | ok old =>
    dsimp only
    split
    · obtain ⟨e, he, -⟩ := Except.bind_eq_ok_iff.1 hread
      obtain ⟨place, hplace, -⟩ := entry_eq_ok_iff.1 he
      exact .inr ⟨place, hplace, .inl rfl⟩
    · exact hanew

/-- When writing what differs succeeds, the text was there or has been written. -/
theorem writeIfChanged_eq_ok {text : Text} {b : Bool}
    (h : d.writeIfChanged p text = (.ok b, d')) :
    ∃ place, d.locate p = .ok place ∧
      (d' = d ∨ ¬ d.files.IsDirectory place ∧ Renewed place d d') := by
  have hwrite : d.overwrite text (d.write p) = (.ok b, d') →
      ∃ place, d.locate p = .ok place ∧ ¬ d.files.IsDirectory place ∧ Renewed place d d' := by
    intro h
    unfold overwrite at h
    cases htext : text.string? with
    | none =>
      rw [htext] at h
      dsimp only at h
      split at h <;> cases h
    | some s =>
      rw [htext] at h
      dsimp only at h
      split at h
      · next hwritten =>
        cases h
        exact write_eq_ok hwritten
      · cases h
  unfold writeIfChanged replace at h
  split at h
  · next old hread =>
    split at h
    · cases h
      obtain ⟨e, he, -⟩ := Except.bind_eq_ok_iff.1 hread
      obtain ⟨place, hplace, -⟩ := entry_eq_ok_iff.1 he
      exact ⟨place, hplace, .inl rfl⟩
    · obtain ⟨place, hplace, hnew⟩ := hwrite h
      exact ⟨place, hplace, .inr hnew⟩
  · obtain ⟨place, hplace, hnew⟩ := hwrite h
    exact ⟨place, hplace, .inr hnew⟩
  · cases h

end Disk

namespace World
variable {w w' : World} {output p : Path} {inputs : List Path}

section
variable {α : Type} {step : Disk → Except FileFault α × Disk} {d : Disk}

theorem attempt_eq_ok {a : α} (h : attempt step w = .ok a w') :
    ∃ d, step w.disk = (.ok a, d) ∧ w' = { w with disk := d } := by
  have hget : (MonadState.get : Action World) w = .ok w w := rfl
  unfold attempt at h
  rw [Action.bind_of_ok hget] at h
  rcases hstep : step w.disk with ⟨fault | a', d⟩
  · rw [hstep] at h
    cases h
  · rw [hstep] at h
    cases h
    exact ⟨d, rfl, rfl⟩

theorem attempt_of_ok {a : α} (h : step w.disk = (.ok a, d)) :
    attempt step w = .ok a { w with disk := d } := by
  have hget : (MonadState.get : Action World) w = .ok w w := rfl
  unfold attempt
  rw [Action.bind_of_ok hget, h]
  rfl

theorem attempt_of_error {fault : FileFault} (h : step w.disk = (.error fault, d)) :
    attempt step w = .error (.ofFault fault) { w with disk := d } := by
  have hget : (MonadState.get : Action World) w = .ok w w := rfl
  unfold attempt
  rw [Action.bind_of_ok hget, h]
  rfl

end

/-- The answer is yes where the disk gives a reason, and the reason is said. -/
theorem isStale_apply (w : World) (output : Path) (inputs : List Path) :
    isStale output inputs w = match w.disk.staleness? output inputs with
      | .ok none => .ok false w
      | .ok (some s) => .ok true { w with console := w.console.say Console.verbose s.remark }
      | .error f => .error f w := by
  rw [isStale, Action.get_bind_apply]
  rcases w.disk.staleness? output inputs with f | s?
  · rfl
  · cases s? <;> rfl

theorem isStale_eq_false_iff :
    isStale output inputs w = .ok false w' ↔ w' = w ∧ w.disk.Fresh output inputs := by
  rw [← Disk.staleness?_eq_none_iff, isStale_apply]
  constructor
  · intro h
    split at h
    · next hs =>
      cases h
      exact ⟨rfl, hs⟩
    · cases h
    · cases h
  · rintro ⟨rfl, hs⟩
    rw [hs]

theorem isStale_eq_true (h : isStale output inputs w = .ok true w') :
    Spoken w w' ∧ w.disk.Overdue output inputs := by
  rw [isStale_apply] at h
  split at h
  · cases h
  · next s hs =>
    cases h
    exact ⟨⟨_, rfl⟩, Disk.staleness?_eq_some hs⟩
  · cases h

theorem isStale_eq_ok {stale : Bool} (h : isStale output inputs w = .ok stale w') :
    Spoken w w' := by
  cases stale with
  | false =>
    rw [(isStale_eq_false_iff.1 h).1]
    exact refl_of Spoken w
  | true => exact (isStale_eq_true h).1

/-- After a success the text is there: it was there already, or its place was renewed. -/
theorem writeIfChanged_eq_ok {text : Text} {b : Bool}
    (h : writeIfChanged p text w = .ok b w') :
    ∃ place, w.disk.locate p = .ok place ∧ (w' = w ∨
      ∃ d, w' = { w with disk := d } ∧ ¬ w.disk.files.IsDirectory place ∧
        Disk.Renewed place w.disk d) := by
  obtain ⟨d, hwrite, rfl⟩ := attempt_eq_ok h
  obtain ⟨place, hplace, rfl | ⟨hfile, hr⟩⟩ := Disk.writeIfChanged_eq_ok hwrite
  · exact ⟨place, hplace, .inl rfl⟩
  · exact ⟨place, hplace, .inr ⟨d, rfl, hfile, hr⟩⟩

theorem writeIfChanged_eq_error {text : String} {f : Failure}
    (h : writeIfChanged p text w = .error f w') : w' = w := by
  rw [writeIfChanged] at h
  rcases w.disk.writeIfChanged_cases p text with ⟨fault, hcase⟩ | ⟨place, -, hcase | ⟨d, hcase, -⟩⟩
  · rw [attempt_of_error hcase] at h
    cases h
    rfl
  · rw [attempt_of_ok hcase] at h
    cases h
  · rw [attempt_of_ok hcase] at h
    cases h

end World
end DualImage
