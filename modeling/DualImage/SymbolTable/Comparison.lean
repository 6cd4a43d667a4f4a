import DualImage.SymbolTable.Basic
import DualImage.Text.Blank

/-! Two tables side by side: the symbols on which they agree and those on which they do not. -/
namespace DualImage

/-- Two symbols of one name, each from its own table. -/
structure SymbolPair where
  first : Symbol
  second : Symbol
  deriving DecidableEq, Repr, Inhabited

namespace SymbolPair

def name (p : SymbolPair) : String := p.first.name

/-- Same flags and size and, where packages count, same package. The address never counts. -/
def agrees (packagesCount : Bool) (p : SymbolPair) : Bool :=
  (!packagesCount || p.first.package == p.second.package) && p.first.flags == p.second.flags &&
    p.first.size == p.second.size

/-- Global data, common symbols included, in both tables. -/
def isGlobalData (p : SymbolPair) : Bool := p.first.isGlobalData && p.second.isGlobalData

private def side (s : Symbol) : Text :=
  s.package ++ " (" ++ s.sectionName ++ ", size " ++ s.sizeText ++ ")"

def describe (p : SymbolPair) : Text :=
  p.name ++ ": " ++ side p.first ++ " vs " ++ side p.second

private def bindingSide (s : Symbol) : Text :=
  s.package ++ " (" ++ String.ofList (Text.trim s.code.toList) ++ ", " ++ s.sizeText ++ ")"

def difference (p : SymbolPair) : Text :=
  "Symbol " ++ p.name ++ " differs: " ++ bindingSide p.first ++ " vs " ++ bindingSide p.second

end SymbolPair

namespace SymbolTable

/-- Disagreement on global data is a conflict. Any other disagreement is a mismatch. -/
structure Comparison where
  shared : SymbolTable
  conflicts : List SymbolPair
  mismatches : List SymbolPair

/-- The pairs of the common names, in the order of the first table. -/
def pairs (a b : SymbolTable) : List SymbolPair :=
  a.symbols.filterMap fun s => (b.find? s.name).map (⟨s, ·⟩)

/-- The first table's symbols, cut to those on which the second agrees. -/
def agreement (packagesCount : Bool) (a b : SymbolTable) : SymbolTable :=
  a.filter fun s => (b.find? s.name).any fun other => SymbolPair.agrees packagesCount ⟨s, other⟩

/-- Conflicts come in the order of their names, mismatches in the order of the first table. -/
def compare (packagesCount : Bool) (a b : SymbolTable) : Comparison :=
  let apart := (pairs a b).filter (!·.agrees packagesCount)
  { shared := agreement packagesCount a b
    conflicts := Text.sortedBy SymbolPair.name (apart.filter (·.isGlobalData))
    mismatches := apart.filter (!·.isGlobalData) }

theorem mem_pairs {a b : SymbolTable} {p : SymbolPair} :
    p ∈ pairs a b ↔ p.first ∈ a.symbols ∧ b.find? p.first.name = some p.second := by
  simp only [pairs, List.mem_filterMap, Option.map_eq_some_iff]
  constructor
  · rintro ⟨s, hs, t, ht, rfl⟩
    exact ⟨hs, ht⟩
  · rintro ⟨hs, ht⟩
    exact ⟨p.first, hs, p.second, ht, rfl⟩

end SymbolTable
end DualImage
