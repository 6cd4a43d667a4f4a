import DualImage.Listing.Table
import DualImage.Proofs.SymbolTable.Lookup

/-! The entries of a listing, before a table is made of them. -/
namespace DualImage.Listing
variable {o : Origin} {text : String} {s : Symbol}

theorem Reading.provenance_of_symbol {line : List Char} {package suffix : Text}
    (h : (Reading.ofLine line package suffix).symbol? = some s) :
    s.package = package ∧ s.suffix = suffix := by
  unfold Reading.ofLine at h
  split at h
  · cases h
  · split at h
    · cases h
    · cases h
    · cases h
      exact ⟨rfl, rfl⟩

namespace Origin

/-- All symbols that the reader keeps, in the order of their lines. -/
def entries (o : Origin) (text : String) : List Symbol :=
  (Text.lines text.toList).filterMap o.symbol?

/-- The same provenance, without a choice of sections. -/
def anySection (o : Origin) : Origin := { o with memoryOnly := false }

theorem package_of_mem_entries (h : s ∈ o.entries text) : s.package = o.package := by
  obtain ⟨line, -, hline⟩ := List.mem_filterMap.1 h
  exact (Reading.provenance_of_symbol (Option.filter_eq_some_iff.1 hline).1).1

theorem mem_entries_iff :
    s ∈ o.entries text ↔
      s ∈ o.anySection.entries text ∧ (o.memoryOnly = true → s.inMemory = true) := by
  have hline (line : List Char) : o.symbol? line = some s ↔
      o.anySection.symbol? line = some s ∧ (o.memoryOnly = true → s.inMemory = true) := by
    simp [symbol?, keeps, anySection, reading, Option.filter_eq_some_iff, and_assoc,
      imp_iff_not_or]
  simp only [entries, List.mem_filterMap, hline, ← and_assoc, exists_and_right]

/-- A name has a visible symbol in the table when an entry for it is visible and none of the later
ones hides it. -/
theorem exists_visible_of_entries {earlier later : List Symbol}
    (h : o.entries text = earlier ++ s :: later) (hvisible : s.isLocal = false)
    (hlater : ∀ l ∈ later, l.name = s.name → l.isLocal = false) :
    ∃ last, (o.table text).find? s.name = some last ∧ last.isLocal = false := by
  have htable : o.table text = .ofList (earlier ++ s :: later) := congrArg SymbolTable.ofList h
  rw [htable, SymbolTable.find?_ofList_eq_find?_reverse, List.reverse_append, List.reverse_cons,
    List.append_assoc, List.find?_append]
  cases hlast : later.reverse.find? (·.name == s.name) with
  | none => exact ⟨s, by simp, hvisible⟩
  | some last =>
    have hname : last.name = s.name := by simpa using List.find?_some hlast
    have hmem : last ∈ later := List.mem_reverse.1 (List.mem_of_find?_eq_some hlast)
    exact ⟨last, rfl, hlater last hmem hname⟩

theorem mem_entries_of_table (h : s ∈ (o.table text).symbols) : s ∈ o.entries text :=
  SymbolTable.mem_of_mem_ofList h

end Origin
end DualImage.Listing
