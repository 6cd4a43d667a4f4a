import DualImage.Symbol.Basic
import DualImage.Text.Order

/-! Symbols by name, in the order in which the names came. -/
namespace DualImage

/-- At most one symbol for each name. -/
structure SymbolTable where
  symbols : List Symbol
  distinct : (symbols.map (·.name)).Nodup

namespace SymbolTable

def empty : SymbolTable := ⟨[], .nil⟩

instance : EmptyCollection SymbolTable := ⟨empty⟩

instance : Inhabited SymbolTable := ⟨empty⟩

def size (t : SymbolTable) : Nat := t.symbols.length

def find? (t : SymbolTable) (name : String) : Option Symbol :=
  t.symbols.find? (·.name == name)

def contains (t : SymbolTable) (name : String) : Bool := (t.find? name).isSome

def filter (t : SymbolTable) (keep : Symbol → Bool) : SymbolTable :=
  ⟨t.symbols.filter keep, t.distinct.sublist (List.filter_sublist.map _)⟩

def remove (t : SymbolTable) (name : String) : SymbolTable := t.filter (·.name != name)

/-- The list with the symbol of that name exchanged where it stands. -/
private def exchange (s : Symbol) (symbols : List Symbol) : List Symbol :=
  symbols.map fun old => if old.name = s.name then s else old

private theorem names_exchange (s : Symbol) (symbols : List Symbol) :
    (exchange s symbols).map (·.name) = symbols.map (·.name) := by
  simp only [exchange, List.map_map]
  refine List.map_congr_left fun old _ => ?_
  by_cases h : old.name = s.name <;> simp [h]

private theorem nodup_push {t : SymbolTable} {s : Symbol} (h : s.name ∉ t.symbols.map (·.name)) :
    ((t.symbols ++ [s]).map (·.name)).Nodup := by
  rw [List.map_append, List.nodup_append]
  refine ⟨t.distinct, by simp, ?_⟩
  rintro a ha b hb rfl
  simp only [List.map_cons, List.map_nil, List.mem_singleton] at hb
  exact h (hb ▸ ha)

/-- A name that is there keeps its place, a new one goes to the end. -/
def add (t : SymbolTable) (s : Symbol) : SymbolTable :=
  if h : s.name ∈ t.symbols.map (·.name) then
    ⟨exchange s t.symbols, names_exchange s t.symbols ▸ t.distinct⟩
  else ⟨t.symbols ++ [s], nodup_push h⟩

def ofList (symbols : List Symbol) : SymbolTable := symbols.foldl add ∅

/-- A table of its own with the same symbols, added one by one. -/
def copy (t : SymbolTable) : SymbolTable := ofList t.symbols

def names (t : SymbolTable) : List String := t.symbols.map (·.name)

def sortedNames (t : SymbolTable) : List String := Text.sorted t.names

def sortedPackages (t : SymbolTable) : List Text :=
  Text.sorted (t.symbols.map (·.package)).eraseDups

def inSection (t : SymbolTable) (start : String) : SymbolTable := t.filter (·.inSection start)

def ofPackage (t : SymbolTable) (package : Text) : SymbolTable := t.filter (·.package == package)

def globalData (t : SymbolTable) : SymbolTable := t.filter (·.isGlobalData)

def globalFunctions (t : SymbolTable) : SymbolTable := t.filter fun s => s.isGlobal && s.isFunction

def summary (t : SymbolTable) : String := "SymbolSet(" ++ toString t.size ++ " symbols)"

/-- A title with the count, then one line for each symbol in the order of the names. -/
def report (t : SymbolTable) (title : Text) : List Text :=
  (title ++ " (" ++ toString t.size ++ " symbols)") ::
    (t.sortedNames.filterMap t.find?).map fun s => "  " ++ s.describe

theorem name_of_find? {t : SymbolTable} {name : String} {s : Symbol} (h : t.find? name = some s) :
    s.name = name := by
  simpa using List.find?_some h

theorem mem_of_find? {t : SymbolTable} {name : String} {s : Symbol} (h : t.find? name = some s) :
    s ∈ t.symbols :=
  List.mem_of_find?_eq_some h

theorem find?_eq_none_iff {t : SymbolTable} {name : String} :
    t.find? name = none ↔ name ∉ t.names := by
  simp [find?, names]

theorem names_add (t : SymbolTable) (s : Symbol) :
    (t.add s).names = if s.name ∈ t.names then t.names else t.names ++ [s.name] := by
  unfold add
  split
  · next h => exact (names_exchange s t.symbols).trans (if_pos h).symm
  · next h =>
    rw [if_neg (by exact h)]
    simp [names]

theorem mem_symbols_add {t : SymbolTable} {s s' : Symbol} :
    s' ∈ (t.add s).symbols ↔ s' = s ∨ s' ∈ t.symbols ∧ s'.name ≠ s.name := by
  unfold add
  split
  · next h =>
    simp only [exchange, List.mem_map]
    constructor
    · rintro ⟨old, hold, rfl⟩
      split
      · exact .inl rfl
      · next hne => exact .inr ⟨hold, hne⟩
    · rintro (rfl | ⟨hs', hne⟩)
      · obtain ⟨old, hold, he⟩ := List.mem_map.1 h
        exact ⟨old, hold, if_pos he⟩
      · exact ⟨s', hs', if_neg hne⟩
  · next h =>
    simp only [List.mem_append, List.mem_singleton]
    constructor
    · rintro (hs' | rfl)
      · exact .inr ⟨hs', fun he => h (List.mem_map.2 ⟨s', hs', he⟩)⟩
      · exact .inl rfl
    · rintro (rfl | ⟨hs', -⟩)
      · exact .inr rfl
      · exact .inl hs'

@[simp] theorem names_remove (t : SymbolTable) (name : String) :
    (t.remove name).names = t.names.filter (· != name) := by
  simp [remove, filter, names, List.filter_map, Function.comp_def]

end SymbolTable
end DualImage
