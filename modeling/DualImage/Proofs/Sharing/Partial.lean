import DualImage.Proofs.Sharing
import DualImage.Proofs.Workspace.Answer

/-! Which packages a build refuses because they are shared only in part. The refusal depends on what
the tables hold under each name, not on the order in which it came. -/
namespace DualImage

namespace SymbolTable
variable {t t' : SymbolTable} (h : t'.symbols.Perm t.symbols)
include h

theorem find?_of_perm (name : String) : t'.find? name = t.find? name := by
  apply Option.ext
  intro s
  rw [find?_eq_some_iff, find?_eq_some_iff, h.mem_iff]

theorem mem_names_of_perm (name : String) : name ∈ t'.names ↔ name ∈ t.names :=
  (h.map _).mem_iff

end SymbolTable

namespace Sharing
variable {loader application exported : SymbolTable} {skip : List Text} {package : Text}
  {s : Symbol}

/-- The symbol is not exported, for the loader's symbol of that name is of the same package and was
compiled differently. -/
structure Unshared (loader exported : SymbolTable) (s : Symbol) : Prop where
  visible : s.isLocal = false
  unexported : s.name ∉ exported.names
  differs : ∃ other, loader.find? s.name = some other ∧ other.package = s.package ∧
    (other.flags ≠ s.flags ∨ other.size ≠ s.size)

/-- A package that would be linked into the application next to its own exports. -/
structure Offending (loader application exported : SymbolTable) (skip : List Text)
    (package : Text) : Prop where
  checked : package ∉ skip
  exports : ∃ s ∈ application.symbols,
    s.isLocal = false ∧ s.package = package ∧ s.name ∈ exported.names
  mismatches : ∃ s ∈ application.symbols, s.package = package ∧ Unshared loader exported s

theorem differsInLoader_iff : differsInLoader loader s = true ↔
    ∃ other, loader.find? s.name = some other ∧ other.package = s.package ∧
      (other.flags ≠ s.flags ∨ other.size ≠ s.size) := by
  simp [differsInLoader, Option.any_eq_true]

theorem mem_unshared : s ∈ unshared loader application exported skip package ↔
    package ∉ skip ∧ s ∈ application.symbols ∧ s.package = package ∧
      Unshared loader exported s := by
  simp only [unshared, List.mem_filter, mem_visible, Bool.and_eq_true, beq_iff_eq,
    Bool.not_eq_true', ← Bool.not_eq_true, SymbolTable.contains_iff, differsInLoader_iff]
  constructor
  · rintro ⟨⟨hs, hlocal, hskip⟩, ⟨rfl, hexported⟩, hdiffers⟩
    exact ⟨hskip, hs, rfl, by simpa using hlocal, hexported, hdiffers⟩
  · rintro ⟨hskip, hs, rfl, hlocal, hexported, hdiffers⟩
    exact ⟨⟨hs, by simpa using hlocal, hskip⟩, ⟨rfl, hexported⟩, hdiffers⟩

/-- Packages with an exported symbol, in the order of their names. -/
def exportedPackages (application exported : SymbolTable) (skip : List Text) : List Text :=
  Text.sorted
    (((visible application skip).filter (exported.contains ·.name)).map (·.package)).eraseDups

theorem mem_exportedPackages : package ∈ exportedPackages application exported skip ↔
    package ∉ skip ∧ ∃ s ∈ application.symbols,
      s.isLocal = false ∧ s.package = package ∧ s.name ∈ exported.names := by
  simp only [exportedPackages, Text.mem_sorted, List.mem_eraseDups, List.mem_map, List.mem_filter,
    mem_visible, SymbolTable.contains_iff]
  constructor
  · rintro ⟨s, ⟨⟨hs, hlocal, hskip⟩, hexported⟩, rfl⟩
    exact ⟨hskip, s, hs, hlocal, rfl, hexported⟩
  · rintro ⟨hskip, s, hs, hlocal, rfl, hexported⟩
    exact ⟨s, ⟨⟨hs, hlocal, hskip⟩, hexported⟩, rfl⟩

theorem offending_iff : Offending loader application exported skip package ↔
    package ∈ exportedPackages application exported skip ∧
      unshared loader application exported skip package ≠ [] := by
  rw [mem_exportedPackages]
  constructor
  · rintro ⟨hskip, hexported, s, hs, hpackage, hunshared⟩
    exact ⟨⟨hskip, hexported⟩, List.ne_nil_of_mem (mem_unshared.2 ⟨hskip, hs, hpackage, hunshared⟩)⟩
  · rintro ⟨⟨hskip, hexported⟩, hne⟩
    obtain ⟨s, hs⟩ := List.exists_mem_of_ne_nil _ hne
    obtain ⟨-, hs, hpackage, hunshared⟩ := mem_unshared.1 hs
    exact ⟨hskip, hexported, s, hs, hpackage, hunshared⟩

/-- The offending package whose name comes first. -/
structure FirstOffending (loader application exported : SymbolTable) (skip : List Text)
    (package : Text) : Prop where
  offending : Offending loader application exported skip package
  first : ∀ other, Offending loader application exported skip other → package ≤ other

theorem FirstOffending.unique {package' : Text}
    (h : FirstOffending loader application exported skip package)
    (h' : FirstOffending loader application exported skip package') : package = package' :=
  Std.le_antisymm (h.first _ h'.offending) (h'.first _ h.offending)

theorem partlyShared?_eq_none_iff : partlyShared? loader application exported skip = none ↔
    ∀ package, ¬ Offending loader application exported skip package := by
  have hnone : partlyShared? loader application exported skip = none ↔
      ∀ package ∈ exportedPackages application exported skip,
        unshared loader application exported skip package = [] := by
    simp [partlyShared?, exportedPackages]
  rw [hnone]
  refine forall_congr' fun package => ?_
  rw [offending_iff, not_and, not_not]

private theorem firstOffending_of_eq_some {symbols : List Symbol}
    (h : partlyShared? loader application exported skip = some (package, symbols)) :
    FirstOffending loader application exported skip package ∧
      symbols = Text.sortedBy (·.name) (unshared loader application exported skip package) := by
  obtain ⟨before, first, after, hpackages, hfirst, hbefore⟩ := List.findSome?_eq_some_iff.1 h
  dsimp only at hfirst
  split at hfirst
  · cases hfirst
  · next hne =>
    cases hfirst
    have hsorted := Text.sorted_pairwise (((visible application skip).filter
      (exported.contains ·.name)).map (·.package)).eraseDups
    rw [hpackages, List.pairwise_append, List.pairwise_cons] at hsorted
    refine ⟨⟨offending_iff.2 ⟨?_, by simpa using hne⟩, fun other hother => ?_⟩, rfl⟩
    · rw [exportedPackages, hpackages]
      simp
    · obtain ⟨hmem, hunshared⟩ := offending_iff.1 hother
      rw [exportedPackages, hpackages, List.mem_append, List.mem_cons] at hmem
      rcases hmem with hmem | rfl | hmem
      · have hempty := hbefore other hmem
        simp [hunshared] at hempty
      · exact Std.le_refl _
      · exact Std.not_lt.1 (hsorted.2.1.1 other hmem)

theorem partlyShared?_eq_some_iff {symbols : List Symbol} :
    partlyShared? loader application exported skip = some (package, symbols) ↔
      FirstOffending loader application exported skip package ∧
        symbols = Text.sortedBy (·.name) (unshared loader application exported skip package) := by
  refine ⟨firstOffending_of_eq_some, ?_⟩
  rintro ⟨hfirst, rfl⟩
  cases h : partlyShared? loader application exported skip with
  | none => exact absurd hfirst.offending (partlyShared?_eq_none_iff.1 h package)
  | some found =>
    obtain ⟨package', symbols⟩ := found
    obtain ⟨hfirst', rfl⟩ := firstOffending_of_eq_some h
    rw [hfirst.unique hfirst']

section
variable {loader' application' exported' : SymbolTable} {skip' : List Text}

private theorem Unshared.of_perm (hloader : loader'.symbols.Perm loader.symbols)
    (hexported : exported'.symbols.Perm exported.symbols) (h : Unshared loader' exported' s) :
    Unshared loader exported s where
  visible := h.visible
  unexported := mt (SymbolTable.mem_names_of_perm hexported _).2 h.unexported
  differs := SymbolTable.find?_of_perm hloader s.name ▸ h.differs

private theorem Offending.of_perm (hloader : loader'.symbols.Perm loader.symbols)
    (happlication : application'.symbols.Perm application.symbols)
    (hexported : exported'.symbols.Perm exported.symbols)
    (hskip : ∀ package, package ∈ skip' ↔ package ∈ skip)
    (h : Offending loader' application' exported' skip' package) :
    Offending loader application exported skip package := by
  obtain ⟨hchecked, ⟨s, hs, hlocal, hpackage, hname⟩, u, hu, hup, hunshared⟩ := h
  refine ⟨mt (hskip _).2 hchecked, ⟨s, happlication.mem_iff.1 hs, hlocal, hpackage, ?_⟩,
    u, happlication.mem_iff.1 hu, hup, hunshared.of_perm hloader hexported⟩
  exact (SymbolTable.mem_names_of_perm hexported _).1 hname

variable (hloader : loader'.symbols.Perm loader.symbols)
  (happlication : application'.symbols.Perm application.symbols)
  (hexported : exported'.symbols.Perm exported.symbols)
  (hskip : ∀ package, package ∈ skip' ↔ package ∈ skip)
include hloader happlication hexported hskip

theorem offending_of_perm : Offending loader' application' exported' skip' package ↔
    Offending loader application exported skip package :=
  ⟨.of_perm hloader happlication hexported hskip,
    .of_perm hloader.symm happlication.symm hexported.symm fun p => (hskip p).symm⟩

theorem sorted_unshared_of_perm :
    Text.sortedBy (·.name) (unshared loader' application' exported' skip' package) =
      Text.sortedBy (·.name) (unshared loader application exported skip package) := by
  have hnodup {l a e : SymbolTable} {sk : List Text} : (unshared l a e sk package).Nodup :=
    (a.distinct.of_map _).sublist (List.filter_sublist.trans List.filter_sublist)
  refine Text.sortedBy_eq_of_perm ((List.perm_ext_iff_of_nodup hnodup hnodup).2 fun s => ?_) ?_
  · rw [mem_unshared, mem_unshared, happlication.mem_iff, hskip]
    have hunshared : Unshared loader' exported' s ↔ Unshared loader exported s :=
      ⟨.of_perm hloader hexported, .of_perm hloader.symm hexported.symm⟩
    rw [hunshared]
  · intro s hs s' hs' hname
    exact SymbolTable.eq_of_name_eq (mem_unshared.1 hs).2.1 (mem_unshared.1 hs').2.1 hname

theorem partlyShared?_of_perm : partlyShared? loader' application' exported' skip' =
    partlyShared? loader application exported skip := by
  have hoffending (package : Text) : Offending loader' application' exported' skip' package ↔
      Offending loader application exported skip package :=
    offending_of_perm hloader happlication hexported hskip
  apply Option.ext
  rintro ⟨package, symbols⟩
  rw [partlyShared?_eq_some_iff, partlyShared?_eq_some_iff,
    sorted_unshared_of_perm hloader happlication hexported hskip]
  refine and_congr_left' ⟨fun h => ⟨?_, ?_⟩, fun h => ⟨?_, ?_⟩⟩
  · exact (hoffending _).1 h.offending
  · exact fun other hother => h.first other ((hoffending _).2 hother)
  · exact (hoffending _).2 h.offending
  · exact fun other hother => h.first other ((hoffending _).1 hother)

end

private theorem names_sorted_unshared (loader application exported : SymbolTable)
    (skip : List Text) (package : Text) :
    let symbols := Text.sortedBy (·.name) (unshared loader application exported skip package)
    (Text.sorted (symbols.map (·.name))).Pairwise (· < ·) := by
  intro symbols
  have hsublist : ((unshared loader application exported skip package).map (·.name)).Sublist
      application.names := (List.filter_sublist.trans List.filter_sublist).map _
  refine Text.sorted_pairwise_lt (((Text.sortedBy_perm ..).map _).nodup_iff.2 ?_)
  exact hsublist.nodup application.distinct

/-- A build refuses the first offending package by name, with exactly the symbols that are in the
way and in the order of their names, and goes on when there is none. It does nothing but speak. The
same symbols in another order are refused with the same words. -/
theorem refuses_first_offending (loader application exported : SymbolTable) (skip : List Text)
    (w : World) :
    (∃ w', Spoken w w' ∧
      ((∀ package, ¬ Offending loader application exported skip package) ∧
          Build.refusePartlyShared loader application exported skip w = .ok () w' ∨
        ∃ package names, FirstOffending loader application exported skip package ∧
          (∀ name, name ∈ names ↔ ∃ s ∈ application.symbols,
            s.name = name ∧ s.package = package ∧ Unshared loader exported s) ∧
          names.Pairwise (· < ·) ∧
          Build.refusePartlyShared loader application exported skip w =
            .error (.partlyShared package names) w')) ∧
    ∀ (loader' application' exported' : SymbolTable) (skip' : List Text),
      loader'.symbols.Perm loader.symbols → application'.symbols.Perm application.symbols →
      exported'.symbols.Perm exported.symbols → (∀ package, package ∈ skip' ↔ package ∈ skip) →
      Build.refusePartlyShared loader' application' exported' skip' =
        Build.refusePartlyShared loader application exported skip := by
  refine ⟨?_, fun loader' application' exported' skip' hloader happlication hexported hskip => ?_⟩
  · unfold Build.refusePartlyShared
    cases h : partlyShared? loader application exported skip with
    | none => exact ⟨w, refl_of Spoken w, .inl ⟨partlyShared?_eq_none_iff.1 h, rfl⟩⟩
    | some found =>
      obtain ⟨package, symbols⟩ := found
      obtain ⟨hfirst, rfl⟩ := partlyShared?_eq_some_iff.1 h
      have hrefused (names : List Text) (f : Failure) : Answers Spoken
          (World.say Console.quiet ("We have non-matching global symbols in " ++ package) >>=
            fun _ => World.sayAll Console.quiet names >>= fun _ => throw f)
          (.error f : Except Failure Unit) w :=
        (Answers.say ..).andThen fun _ _ => (Answers.sayAll ..).andThen fun _ _ => .throw f
      obtain ⟨w', hspoken, hw'⟩ := hrefused _ _
      refine ⟨w', hspoken, .inr ⟨package, _, hfirst, fun name => ?_,
        names_sorted_unshared .., hw'⟩⟩
      rw [Text.mem_sorted, List.mem_map]
      simp only [(Text.sortedBy_perm ..).mem_iff, mem_unshared]
      constructor
      · rintro ⟨s, ⟨-, hs, hpackage, hunshared⟩, rfl⟩
        exact ⟨s, hs, rfl, hpackage, hunshared⟩
      · rintro ⟨s, hs, rfl, hpackage, hunshared⟩
        exact ⟨s, ⟨hfirst.offending.checked, hs, hpackage, hunshared⟩, rfl⟩
  · unfold Build.refusePartlyShared
    rw [partlyShared?_of_perm hloader happlication hexported hskip]

end Sharing
end DualImage
