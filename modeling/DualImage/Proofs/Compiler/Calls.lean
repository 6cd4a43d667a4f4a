import DualImage.Proofs.Compiler.Failing

/-! Calls one after another for one output, and the last command of them that went through. Between two
calls anything may change but the files that the calls keep for themselves. -/
namespace DualImage

/-- An action that gives an output, and the world that it finds. -/
structure Call where
  action : Action Path
  before : World

namespace Call
variable {g : Call} {calls : List Call}

/-- The world that the call leaves, whether it succeeded or not. -/
def after (g : Call) : World := leaves (g.action g.before)

/-- The last command that a successful call has started. -/
def done? (g : Call) : Option Command :=
  match g.action g.before with
  | .ok _ w => (w.commands.drop g.before.commands.length).getLast?
  | .error .. => none

/-- The last command that went through, and its call. The latest call comes first. -/
def last? (calls : List Call) : Option (Call × Command) :=
  calls.findSome? fun g => g.done?.map (g, ·)

theorem after_of_ok {p : Path} {w : World} (h : g.action g.before = .ok p w) : g.after = w := by
  rw [after, h]
  rfl

theorem after_of_error {f : Failure} {w : World} (h : g.action g.before = .error f w) :
    g.after = w := by
  rw [after, h]
  rfl

theorem done?_of_error {f : Failure} {w : World} (h : g.action g.before = .error f w) :
    g.done? = none := by
  rw [done?, h]

theorem done?_of_ok {p : Path} {w : World} {started : List Command}
    (h : g.action g.before = .ok p w) (hstarted : w.commands = g.before.commands ++ started) :
    g.done? = started.getLast? := by
  rw [done?, h]
  dsimp only
  rw [hstarted, List.drop_left]

theorem done?_of_quiet {p : Path} {w : World} (h : g.action g.before = .ok p w)
    (hquiet : w.commands = g.before.commands) : g.done? = none :=
  done?_of_ok h (hquiet.trans (List.append_nil _).symm)

theorem last?_of_done {c : Command} (h : g.done? = some c) : last? (g :: calls) = some (g, c) := by
  rw [last?, List.findSome?_cons, h]
  rfl

theorem last?_of_not_done (h : g.done? = none) : last? (g :: calls) = last? calls := by
  rw [last?, List.findSome?_cons, h]
  rfl

end Call

open Call (last?)

/-- Calls of one kind, the latest first. There is no output at the start, and between two calls nobody
else writes the files that are kept. -/
inductive Calls (kind : Call → Prop) (output : Path) (kept : List Path) : List Call → Prop
  | start {g} (hkind : kind g) (hnone : g.before.disk.fileAt? output = none) :
    Calls kind output kept [g]
  | next {g g' rest} (h : Calls kind output kept (g :: rest)) (hkind : kind g')
    (hhere : g'.before.disk.here = g.after.disk.here)
    (hkept : ∀ p ∈ kept, g'.before.disk.fileAt? p = g.after.disk.fileAt? p) :
    Calls kind output kept (g' :: g :: rest)

namespace Calls
variable {kind : Call → Prop} {output : Path} {kept : List Path} {g : Call} {rest : List Call}

theorem latest (h : Calls kind output kept (g :: rest)) : kind g := by
  cases h with
  | start hkind => exact hkind
  | next _ hkind => exact hkind

/-- What holds without an output, depends on the kept files only and is kept by every call, holds
before the latest call. -/
theorem holds {I : Option (Call × Command) → Disk → Prop}
    (hnone : ∀ d, d.fileAt? output = none → I none d)
    (hkept : ∀ l d d', d'.here = d.here → (∀ p ∈ kept, d'.fileAt? p = d.fileAt? p) → I l d → I l d')
    (hdone : ∀ g c l, kind g → g.done? = some c → I l g.before.disk → I (some (g, c)) g.after.disk)
    (hrest : ∀ g l, kind g → g.done? = none → I l g.before.disk → I l g.after.disk)
    (h : Calls kind output kept (g :: rest)) : I (last? rest) g.before.disk := by
  generalize hcalls : g :: rest = calls at h
  induction h generalizing g rest with
  | start _ hout =>
    cases hcalls
    exact hnone _ hout
  | @next g₀ g' rest₀ h _ hhere hsame ih =>
    cases hcalls
    refine hkept _ _ _ hhere hsame ?_
    have hbefore := ih rfl
    cases hg : g₀.done? with
    | some c =>
      rw [Call.last?_of_done hg]
      exact hdone g₀ c _ h.latest hg hbefore
    | none =>
      rw [Call.last?_of_not_done hg]
      exact hrest g₀ _ h.latest hg hbefore

end Calls
end DualImage
