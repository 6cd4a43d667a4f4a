import DualImage.Proofs.Listing.Shape
import DualImage.Proofs.SymbolTable.Agreement

/-! Which symbols of a listing can come into conflict with those of another. Global data can, and
some of it is weak or local. -/
namespace DualImage

namespace Symbol
variable {s : Symbol}

/-- A definition that other objects see and that no other one may take the place of. -/
structure Firm (s : Symbol) : Prop where
  visible : s.isLocal = false
  strong : s.isWeak = false
  data : s.isFunction = false

theorem isGlobalData_iff :
    s.isGlobalData = true ↔ (s.isGlobal = true ∨ s.isCommon = true) ∧ s.isFunction = false := by
  simp [isGlobalData]

theorem isLocal_of_isGlobal (h : s.isGlobal = true) : s.isLocal = false := by
  simp only [isGlobal, Bool.and_eq_true, Bool.not_eq_true'] at h
  exact h.2

/-- Data that is bound globally or common, and local only if it is common. -/
structure Bound (s : Symbol) : Prop where
  data : s.isFunction = false
  bound : s.isCommon = false → s.isGlobal = true
  hidden : s.isLocal = true → s.isCommon = true

theorem bound_of_isGlobalData (h : s.isGlobalData = true) : s.Bound := by
  obtain ⟨hs, hdata⟩ := isGlobalData_iff.1 h
  refine ⟨hdata, fun hcommon => ?_, fun hlocal => hs.resolve_left fun hglobal => ?_⟩
  · exact hs.resolve_right (by simp [hcommon])
  · simp [isLocal_of_isGlobal hglobal] at hlocal

/-- Data that is weak is neither bound globally nor common, and data that is local is not common. -/
structure Unmixed (s : Symbol) : Prop where
  weak : s.isWeak = true → s.isGlobal = false ∧ s.isCommon = false
  hidden : s.isLocal = true → s.isCommon = false

theorem firm_iff_unmixed (hdata : s.isFunction = false) :
    (s.isGlobalData = true → s.Firm) ↔ s.Unmixed := by
  rw [isGlobalData_iff]
  constructor
  · intro h
    have hfirm (hs : s.isGlobal = true ∨ s.isCommon = true) : s.Firm := h ⟨hs, hdata⟩
    refine ⟨fun hweak => ⟨?_, ?_⟩, fun hlocal => ?_⟩ <;> refine Bool.of_not_eq_true fun hs => ?_
    · exact absurd hweak (by simp [(hfirm (.inl hs)).strong])
    · exact absurd hweak (by simp [(hfirm (.inr hs)).strong])
    · exact absurd hlocal (by simp [(hfirm (.inr hs)).visible])
  · rintro h ⟨hs, -⟩
    refine ⟨?_, Bool.of_not_eq_true fun hweak => ?_, hdata⟩
    · rcases hs with hglobal | hcommon
      · exact isLocal_of_isGlobal hglobal
      · exact Bool.of_not_eq_true fun hlocal => by simp [h.hidden hlocal] at hcommon
    · obtain ⟨hglobal, hcommon⟩ := h.weak hweak
      simp [hglobal, hcommon] at hs

end Symbol

/-- No data in the table is weak or local and passes for global data all the same. -/
def SymbolTable.Unmixed (t : SymbolTable) : Prop :=
  ∀ s ∈ t.symbols, s.isFunction = false → s.Unmixed

namespace Listing
open SymbolTable
variable {packagesCount : Bool} {o : Origin} {text : String} {s : Symbol}

/-- The symbol at the start of memory, with another size. -/
def resized (s : Symbol) : Symbol := { s with size := if s.size = 0 then 1 else 0, address := 0 }

theorem Shaped.listable_resized (h : Shaped s) : Listable (resized s) where
  address := by simp [resized]
  size := by
    simp only [resized]
    split <;> decide
  code := h.code
  sectionName := h.sectionName
  name := h.name

/-- The listing of that one symbol. -/
def rival (s : Symbol) : String := printed [⟨.entry (.ofSymbol none (resized s)), false⟩]

theorem find?_rival (hs : s ∈ (o.table text).symbols) :
    (o.table (rival s)).find? s.name = some (resized s) := by
  obtain ⟨hshaped, hkeeps, hadopt⟩ := shaped_of_mem_table hs
  have hkept : o.keeps (resized s) = true := hkeeps
  have hadopted : o.adopt (resized s) = resized s :=
    congrArg (fun t : Symbol => { resized s with package := t.package, suffix := t.suffix }) hadopt
  rw [rival, table_printed_eq]
  · simp only [symbolsOf, List.filterMap_cons, List.filterMap_nil, Content.symbol?, Entry.ofSymbol,
      List.filter_cons_of_pos hkept, List.filter_nil, List.map_cons, List.map_nil, hadopted]
    exact (find?_ofList (by simp)).2 ⟨List.mem_singleton_self _, rfl⟩
  · simp only [List.forall_mem_cons, List.not_mem_nil, false_implies, implies_true, and_true]
    exact Entry.printed_ofSymbol hshaped.listable_resized (by simp)

/-- Global data of a listing comes into conflict with its own line of another size. -/
theorem clashes_rival (packagesCount : Bool) (hs : s ∈ (o.table text).symbols)
    (hdata : s.isGlobalData = true) :
    SymbolPair.Clashes packagesCount (o.table text) (o.table (rival s)) ⟨s, resized s⟩ where
  first := find?_name hs
  second := find?_rival hs
  unlike h := by
    have hsize : s.size = if s.size = 0 then 1 else 0 := h.size
    split at hsize <;> omega
  firstData := hdata
  secondData := hdata

/-- A symbol that was read is global data exactly when it stands in a conflict with some listing. -/
theorem isGlobalData_iff_conflict (packagesCount : Bool) (hs : s ∈ (o.table text).symbols) :
    s.isGlobalData = true ↔ ∃ (o' : Origin) (text' : String),
      ∃ p ∈ (compare packagesCount (o.table text) (o'.table text')).conflicts, p.first = s := by
  constructor
  · intro hdata
    exact ⟨o, rival s, ⟨s, resized s⟩,
      ((compare_tellsApart ..).conflicts _).2 (clashes_rival packagesCount hs hdata), rfl⟩
  · rintro ⟨o', text', p, hp, rfl⟩
    exact (((compare_tellsApart ..).conflicts p).1 hp).firstData

private theorem forall_first_firm_iff (packagesCount : Bool) (o : Origin) (text : String) :
    (∀ (o' : Origin) (text' : String),
      ∀ p ∈ (compare packagesCount (o.table text) (o'.table text')).conflicts, p.first.Firm) ↔
    (o.table text).Unmixed := by
  constructor
  · intro h s hs hdata
    refine (Symbol.firm_iff_unmixed hdata).1 fun hglobal => ?_
    obtain ⟨o', text', p, hp, rfl⟩ := (isGlobalData_iff_conflict packagesCount hs).1 hglobal
    exact h o' text' p hp
  · intro h o' text' p hp
    have hclash := ((compare_tellsApart ..).conflicts p).1 hp
    have hdata := (Symbol.isGlobalData_iff.1 hclash.firstData).2
    exact (Symbol.firm_iff_unmixed hdata).2 (h p.first (mem_of_find? hclash.first) hdata)
      hclash.firstData

private theorem forall_second_firm_iff (packagesCount : Bool) (o : Origin) (text : String) :
    (∀ (o' : Origin) (text' : String),
      ∀ p ∈ (compare packagesCount (o'.table text') (o.table text)).conflicts, p.second.Firm) ↔
    (o.table text).Unmixed := by
  rw [← forall_first_firm_iff packagesCount]
  have hswap (o' : Origin) (text' : String) :=
    (compare_tellsApart packagesCount (o'.table text') (o.table text)).conflicts_swap
      (compare_tellsApart packagesCount (o.table text) (o'.table text'))
  simp only [hswap, List.forall_mem_map]
  rfl

/-- A conflict is never about a function, and about a local symbol only if it is common. Whatever is
compared with a listing, its side of the conflicts is firm as long as nothing in it is mixed. -/
theorem conflicts_firm_iff (packagesCount : Bool) (o : Origin) (text : String) :
    (∀ (o' : Origin) (text' : String),
      ∀ p ∈ (compare packagesCount (o.table text) (o'.table text')).conflicts,
        p.first.Bound ∧ p.second.Bound) ∧
    ((∀ (o' : Origin) (text' : String),
      ∀ p ∈ (compare packagesCount (o.table text) (o'.table text')).conflicts, p.first.Firm) ↔
        (o.table text).Unmixed) ∧
    ((∀ (o' : Origin) (text' : String),
      ∀ p ∈ (compare packagesCount (o'.table text') (o.table text)).conflicts, p.second.Firm) ↔
        (o.table text).Unmixed) := by
  refine ⟨fun o' text' p hp => ?_, forall_first_firm_iff packagesCount o text,
    forall_second_firm_iff packagesCount o text⟩
  have hclash := ((compare_tellsApart ..).conflicts p).1 hp
  exact ⟨Symbol.bound_of_isGlobalData hclash.firstData,
    Symbol.bound_of_isGlobalData hclash.secondData⟩

/-- A weak variable and a local common one, of the given size. -/
def mixedListing (size : String) : String :=
  "00000000 gw    O .data\t" ++ size ++ " v\n00000004 l     O *COM*\t" ++ size ++ " x\n"

/-- Neither a weak definition nor a local one is left out of the conflicts. -/
theorem mixed_symbols_conflict :
    let small := (Origin.ofArchive "p").table (mixedListing "00000004")
    let large := (Origin.ofArchive "p").table (mixedListing "00000008")
    ∀ packagesCount,
      (∃ p ∈ (compare packagesCount small large).conflicts,
        p.first.isWeak = true ∧ p.second.isWeak = true) ∧
      ∃ p ∈ (compare packagesCount small large).conflicts,
        p.first.isLocal = true ∧ p.second.isLocal = true := by
  decide +kernel

end Listing
end DualImage
