import DualImage.Build
import DualImage.Proofs.SymbolTable.Lookup

/-! Which packages the application takes from the loader, and that the exports count only where
other packages can see a symbol. -/
namespace DualImage.Sharing

variable {loader application exported exported' : SymbolTable} {left : List Text} {package : Text}
  {s : Symbol}

theorem mem_visible : s ∈ visible application left ↔
    s ∈ application.symbols ∧ s.isLocal = false ∧ s.package ∉ left := by
  simp [visible]

/-- All that a package shows to others is exported, and it shows something. -/
structure Taken (application exported : SymbolTable) (package : Text) : Prop where
  shows : ∃ s ∈ application.symbols, s.isLocal = false ∧ s.package = package
  exported : ∀ s ∈ application.symbols, s.isLocal = false → s.package = package →
    s.name ∈ exported.names

theorem mem_commonPackages {keep : List Text} :
    package ∈ commonPackages application exported keep ↔
      package ∉ keep ∧ Taken application exported package := by
  simp only [commonPackages, Text.mem_sorted, List.mem_filter, List.mem_eraseDups, List.mem_map,
    List.all_eq_true, Bool.or_eq_true, bne_iff_ne, SymbolTable.contains_iff, mem_visible]
  constructor
  · rintro ⟨⟨s, ⟨hs, hlocal, hkeep⟩, rfl⟩, hall⟩
    refine ⟨hkeep, ⟨s, hs, hlocal, rfl⟩, fun t ht htlocal htpackage => ?_⟩
    exact (hall t ⟨ht, htlocal, htpackage ▸ hkeep⟩).resolve_left (not_not_intro htpackage)
  · rintro ⟨hkeep, ⟨s, hs, hlocal, rfl⟩, hall⟩
    refine ⟨⟨s, ⟨hs, hlocal, hkeep⟩, rfl⟩, fun t ⟨ht, htlocal, _⟩ => ?_⟩
    exact or_iff_not_imp_left.2 fun hne => hall t ht htlocal (not_not.1 hne)

section
variable (h : ∀ s ∈ visible application left, exported.contains s.name = exported'.contains s.name)
include h

theorem commonPackages_congr :
    commonPackages application exported left = commonPackages application exported' left := by
  unfold commonPackages
  refine congrArg _ (List.filter_congr fun package _ => ?_)
  rw [Bool.eq_iff_iff, List.all_eq_true, List.all_eq_true]
  refine forall₂_congr fun s hs => ?_
  rw [h s hs]

theorem partlyShared?_congr :
    partlyShared? loader application exported left =
      partlyShared? loader application exported' left := by
  have hunshared : unshared loader application exported left =
      unshared loader application exported' left := by
    funext package
    refine List.filter_congr fun s hs => ?_
    rw [h s hs]
  have hvisible : (visible application left).filter (exported.contains ·.name) =
      (visible application left).filter (exported'.contains ·.name) := List.filter_congr h
  simp only [partlyShared?, hunshared, hvisible]

end
end DualImage.Sharing
