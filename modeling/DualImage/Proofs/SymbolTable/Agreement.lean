import DualImage.Proofs.SymbolTable.Comparison
import DualImage.Proofs.Workspace.Answer
import Mathlib.Data.List.Perm.Basic

/-! Which common names two tables share and on which they are in conflict, from either side. -/
namespace DualImage
variable {packagesCount : Bool} {a b : SymbolTable} {c c' : SymbolTable.Comparison} {s t : Symbol}

/-- Same flags and size and, where packages count, same package. -/
structure Symbol.Alike (packagesCount : Bool) (s t : Symbol) : Prop where
  flags : s.flags = t.flags
  size : s.size = t.size
  package : packagesCount = true → s.package = t.package

theorem Symbol.Alike.symm (h : s.Alike packagesCount t) : t.Alike packagesCount s :=
  ⟨h.flags.symm, h.size.symm, fun hp => (h.package hp).symm⟩

/-- Packages that count are one more thing on which two symbols may differ. -/
theorem Symbol.Alike.of_counted (h : s.Alike true t) : s.Alike packagesCount t :=
  ⟨h.flags, h.size, fun _ => h.package rfl⟩

namespace SymbolPair

theorem agrees_iff : agrees packagesCount ⟨s, t⟩ = true ↔ s.Alike packagesCount t := by
  simp only [agrees, Bool.and_eq_true, Bool.or_eq_true, Bool.not_eq_true', beq_iff_eq]
  constructor
  · rintro ⟨⟨hpackage, hflags⟩, hsize⟩
    refine ⟨hflags, hsize, fun hp => hpackage.resolve_left ?_⟩
    simp [hp]
  · rintro ⟨hflags, hsize, hpackage⟩
    refine ⟨⟨?_, hflags⟩, hsize⟩
    cases packagesCount with
    | false => exact .inl rfl
    | true => exact .inr (hpackage rfl)

def swap (p : SymbolPair) : SymbolPair := ⟨p.second, p.first⟩

@[simp] theorem swap_swap (p : SymbolPair) : p.swap.swap = p := rfl

/-- The records that the two tables have under one name, which is global data in both, and they
differ. -/
structure Clashes (packagesCount : Bool) (a b : SymbolTable) (p : SymbolPair) : Prop where
  first : a.find? p.name = some p.first
  second : b.find? p.name = some p.second
  unlike : ¬ p.first.Alike packagesCount p.second
  firstData : p.first.isGlobalData = true
  secondData : p.second.isGlobalData = true

theorem Clashes.name_swap {p : SymbolPair} (h : p.Clashes packagesCount a b) :
    p.swap.name = p.name :=
  SymbolTable.name_of_find? h.second

theorem Clashes.swap {p : SymbolPair} (h : p.Clashes packagesCount a b) :
    p.swap.Clashes packagesCount b a where
  first := h.name_swap ▸ h.second
  second := h.name_swap ▸ h.first
  unlike hlike := h.unlike hlike.symm
  firstData := h.secondData
  secondData := h.firstData

end SymbolPair

namespace SymbolTable
open SymbolPair

/-- Each common name is shared, in conflict or left out. What is shared comes as the first table
has it, and the conflicts come by name. -/
structure Comparison.TellsApart (packagesCount : Bool) (a b : SymbolTable) (c : Comparison) :
    Prop where
  shared (name : String) : name ∈ c.shared.names ↔
    ∃ s t, a.find? name = some s ∧ b.find? name = some t ∧ s.Alike packagesCount t
  conflicts (p : SymbolPair) : p ∈ c.conflicts ↔ p.Clashes packagesCount a b
  kept : c.shared.symbols.Sublist a.symbols
  ordered : (c.conflicts.map SymbolPair.name).Pairwise (· < ·)

theorem compare_tellsApart (packagesCount : Bool) (a b : SymbolTable) :
    (compare packagesCount a b).TellsApart packagesCount a b where
  shared name := by
    simp only [compare, mem_names_iff_find?, find?_agreement, agrees_iff]
    exact exists_congr fun s => exists_and_left.symm
  conflicts p := by
    rw [mem_compare_conflicts, mem_pairs_iff_find?, ← Bool.not_eq_true, agrees_iff, isGlobalData,
      Bool.and_eq_true]
    constructor
    · rintro ⟨⟨hfirst, hsecond⟩, hunlike, hdata, hdata'⟩
      exact ⟨hfirst, hsecond, hunlike, hdata, hdata'⟩
    · rintro ⟨hfirst, hsecond, hunlike, hdata, hdata'⟩
      exact ⟨⟨hfirst, hsecond⟩, hunlike, hdata, hdata'⟩
  kept := List.filter_sublist
  ordered := names_compare_conflicts_pairwise packagesCount a b

namespace Comparison.TellsApart

theorem shared_comm (h : c.TellsApart packagesCount a b) (h' : c'.TellsApart packagesCount b a)
    (name : String) : name ∈ c'.shared.names ↔ name ∈ c.shared.names := by
  rw [h.shared, h'.shared]
  constructor
  · rintro ⟨t, s, ht, hs, hlike⟩
    exact ⟨s, t, hs, ht, hlike.symm⟩
  · rintro ⟨s, t, hs, ht, hlike⟩
    exact ⟨t, s, ht, hs, hlike.symm⟩

private theorem ordered_swap (h : c.TellsApart packagesCount a b) :
    ((c.conflicts.map swap).map SymbolPair.name).Pairwise (· < ·) := by
  have hnames : (c.conflicts.map swap).map SymbolPair.name = c.conflicts.map SymbolPair.name := by
    rw [List.map_map]
    exact List.map_congr_left fun p hp => ((h.conflicts p).1 hp).name_swap
  rw [hnames]
  exact h.ordered

/-- Both lists have the same members and come strictly by name, so they are one list. -/
theorem conflicts_swap (h : c.TellsApart packagesCount a b)
    (h' : c'.TellsApart packagesCount b a) : c'.conflicts = c.conflicts.map swap := by
  have hleft := List.pairwise_map.1 h'.ordered
  have hright := List.pairwise_map.1 h.ordered_swap
  have hne {p q : SymbolPair} (hlt : p.name < q.name) : p ≠ q := by
    rintro rfl
    exact Std.lt_irrefl hlt
  have hmem (p : SymbolPair) : p ∈ c'.conflicts ↔ p ∈ c.conflicts.map swap := by
    rw [List.mem_map]
    constructor
    · intro hp
      exact ⟨p.swap, (h.conflicts _).2 ((h'.conflicts p).1 hp).swap, p.swap_swap⟩
    · rintro ⟨q, hq, rfl⟩
      exact (h'.conflicts _).2 ((h.conflicts q).1 hq).swap
  have hperm : c'.conflicts.Perm (c.conflicts.map swap) :=
    (List.perm_ext_iff_of_nodup (hleft.imp hne) (hright.imp hne)).2 hmem
  refine hperm.eq_of_pairwise ?_ hleft hright
  intro p q _ _ hpq hqp
  exact absurd hqp (Std.not_gt_of_lt hpq)

theorem shared_of_counted (h : c.TellsApart packagesCount a b) (h' : c'.TellsApart true a b)
    {name : String} (hname : name ∈ c'.shared.names) : name ∈ c.shared.names := by
  obtain ⟨s, t, hs, ht, hlike⟩ := (h'.shared name).1 hname
  exact (h.shared name).2 ⟨s, t, hs, ht, hlike.of_counted⟩

theorem counted_of_conflicts (h : c.TellsApart packagesCount a b) (h' : c'.TellsApart true a b)
    {p : SymbolPair} (hp : p ∈ c.conflicts) : p ∈ c'.conflicts := by
  have hclash := (h.conflicts p).1 hp
  exact (h'.conflicts p).2 { hclash with unlike := fun hlike => hclash.unlike hlike.of_counted }

end Comparison.TellsApart

/-- A comparison sorts out the common names and does nothing but speak. From the other side it
shares the same names and turns each conflict round. Where packages count, fewer names are shared
and more are in conflict. -/
theorem compare_sorts_common_names (packagesCount : Bool) (a b : SymbolTable) (w : World) :
    ∃ c w', World.compare packagesCount a b w = .ok c w' ∧ Spoken w w' ∧
      c.TellsApart packagesCount a b ∧
      (∃ c' w'', World.compare packagesCount b a w = .ok c' w'' ∧
        (∀ name, name ∈ c'.shared.names ↔ name ∈ c.shared.names) ∧
        c'.conflicts = c.conflicts.map swap) ∧
      ∃ c' w'', World.compare true a b w = .ok c' w'' ∧
        (∀ name ∈ c'.shared.names, name ∈ c.shared.names) ∧
        ∀ p ∈ c.conflicts, p ∈ c'.conflicts := by
  obtain ⟨w₁, hspoken, h₁⟩ := Answers.compare (w := w) packagesCount a b
  obtain ⟨w₂, -, h₂⟩ := Answers.compare (w := w) packagesCount b a
  obtain ⟨w₃, -, h₃⟩ := Answers.compare (w := w) true a b
  have hapart := compare_tellsApart packagesCount a b
  have hswapped := compare_tellsApart packagesCount b a
  have hcounted := compare_tellsApart true a b
  refine ⟨_, w₁, h₁, hspoken, hapart, ⟨_, w₂, h₂, ?_, ?_⟩, _, w₃, h₃, ?_, ?_⟩
  · exact hapart.shared_comm hswapped
  · exact hapart.conflicts_swap hswapped
  · exact fun _ => hapart.shared_of_counted hcounted
  · exact fun _ => hapart.counted_of_conflicts hcounted

end SymbolTable
end DualImage
