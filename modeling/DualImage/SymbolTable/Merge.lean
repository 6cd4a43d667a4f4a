import DualImage.Symbol.Strength
import DualImage.SymbolTable.Comparison

/-! Folding one table into another by the rules of a linker. -/
namespace DualImage

/-- What happens to a symbol that arrives under a name already taken. -/
inductive Verdict where
  | keep
  | replace
  | drop
  | clash
  deriving DecidableEq, Repr

/-- Locals give way to everything else, common symbols to definitions and to larger common ones,
and weak definitions to strong ones. Two strong definitions clash. Of two locals the arriving one
is dropped from its own table as well. -/
def SymbolPair.verdict (p : SymbolPair) : Verdict :=
  if p.first.isLocal && p.second.isLocal then .drop
  else if p.first.isLocal then .replace
  else if p.second.isLocal then .keep
  else if p.first.isCommon || p.second.isCommon then
    if p.first.isCommon && (!p.second.isCommon || p.first.size < p.second.size) then .replace
    else .keep
  else if p.second.isWeak then .keep
  else if p.first.isWeak then .replace
  else .clash

def SymbolPair.localRemark (p : SymbolPair) : Text :=
  "Local Symbol Conflict: " ++ p.second.name ++ " from packages " ++ p.second.package ++ " and " ++
    p.first.package

def SymbolPair.clashRemark (p : SymbolPair) : Text :=
  "Global Symbol Conflict: " ++ p.second.name ++ " from packages " ++ p.second.package ++ " and " ++
    p.first.package

theorem SymbolPair.verdict_eq_replace_iff (p : SymbolPair) :
    p.verdict = .replace ↔ p.first.strength.below p.second.strength = true := by
  unfold verdict Symbol.strength
  cases p.first.isLocal <;> cases p.second.isLocal <;> cases p.first.isCommon <;>
    cases p.second.isCommon <;> cases p.first.isWeak <;> cases p.second.isWeak <;>
    simp [Symbol.Strength.below]

theorem SymbolPair.verdict_eq_clash_iff (p : SymbolPair) :
    p.verdict = .clash ↔ p.first.strength = .strong ∧ p.second.strength = .strong := by
  unfold verdict Symbol.strength
  by_cases h : p.first.size < p.second.size <;> cases p.first.isLocal <;>
    cases p.second.isLocal <;> cases p.first.isCommon <;> cases p.second.isCommon <;>
    cases p.first.isWeak <;> cases p.second.isWeak <;> simp [h]

namespace SymbolTable

/-- Both tables during a merge. Each pair holds the symbol that was there first. -/
structure Merge where
  target : SymbolTable
  source : SymbolTable
  dropped : List SymbolPair
  clash : Option SymbolPair

namespace Merge

/-- Nothing moves after a clash. -/
def step (m : Merge) (s : Symbol) : Merge :=
  if m.clash.isSome then m
  else match m.target.find? s.name with
    | none => { m with target := m.target.add s }
    | some old =>
      match SymbolPair.verdict ⟨old, s⟩ with
      | .keep => m
      | .replace => { m with target := m.target.add s }
      | .drop => { m with source := m.source.remove s.name, dropped := m.dropped ++ [⟨old, s⟩] }
      | .clash => { m with clash := some ⟨old, s⟩ }

theorem step_of_clash {m : Merge} (h : m.clash.isSome) (s : Symbol) : m.step s = m := by
  simp [step, h]

theorem foldl_step_of_clash {m : Merge} (h : m.clash.isSome) (symbols : List Symbol) :
    symbols.foldl step m = m := by
  induction symbols with
  | nil => rfl
  | cons s rest ih => rw [List.foldl_cons, step_of_clash h, ih]

end Merge

/-- The symbols of the source arrive in their order. -/
def merge (target source : SymbolTable) : Merge :=
  source.symbols.foldl Merge.step ⟨target, source, [], none⟩

/-- A table folded into itself: every symbol meets itself, so locals go and the first strong
definition clashes. -/
def mergeSelf (t : SymbolTable) : Merge :=
  t.symbols.foldl (fun m s => let n := m.step s; { n with target := n.source }) ⟨t, t, [], none⟩

end SymbolTable
end DualImage
