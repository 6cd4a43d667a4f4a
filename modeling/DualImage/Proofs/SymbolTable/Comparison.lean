import DualImage.Proofs.SymbolTable.Lookup

/-! Comparisons seen through the look-up of a name. -/
namespace DualImage.SymbolTable

variable {packagesCount : Bool} {a b : SymbolTable} {s : Symbol} {p : SymbolPair} {name : String}

theorem mem_pairs_iff_find? :
    p ∈ pairs a b ↔ a.find? p.name = some p.first ∧ b.find? p.name = some p.second := by
  rw [mem_pairs, find?_eq_some_iff (t := a)]
  exact and_congr_left' (iff_self_and.2 fun _ => rfl)

theorem mem_compare_conflicts :
    p ∈ (compare packagesCount a b).conflicts ↔
      p ∈ pairs a b ∧ p.agrees packagesCount = false ∧ p.isGlobalData = true := by
  simp only [compare, (Text.sortedBy_perm _ _).mem_iff, List.mem_filter, Bool.not_eq_true']
  exact and_assoc

theorem find?_agreement :
    (agreement packagesCount a b).find? name = some s ↔
      a.find? name = some s ∧
        ∃ other, b.find? name = some other ∧ SymbolPair.agrees packagesCount ⟨s, other⟩ = true := by
  rw [agreement, find?_filter_eq_some_iff]
  refine and_congr_right fun hs => ?_
  rw [name_of_find? hs, Option.any_eq_true]

private theorem pairs_names_sublist (a b : SymbolTable) :
    List.Sublist ((pairs a b).map SymbolPair.name) a.names := by
  unfold pairs names
  induction a.symbols with
  | nil => exact .slnil
  | cons s rest ih =>
    rw [List.filterMap_cons]
    cases b.find? s.name with
    | none => exact ih.cons s.name
    | some other => exact ih.cons_cons s.name

/-- No name is in conflict twice, so the conflicts stand in the strict order of their names. -/
theorem names_compare_conflicts_pairwise (packagesCount : Bool) (a b : SymbolTable) :
    ((compare packagesCount a b).conflicts.map SymbolPair.name).Pairwise (· < ·) := by
  refine Text.sortedBy_pairwise_lt ?_
  refine ((List.filter_sublist.trans List.filter_sublist).map _).nodup ?_
  exact (pairs_names_sublist a b).nodup a.distinct

end DualImage.SymbolTable
