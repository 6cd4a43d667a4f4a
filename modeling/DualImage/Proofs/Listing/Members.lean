import DualImage.Proofs.Listing.Entries
import DualImage.Proofs.SymbolTable.Grouping
import DualImage.Proofs.Text.Lines

/-! The listing of an archive against the listings of its members. One table of the whole keeps the
last symbol of each name, whereas tables of the members that are linked keep the strongest, so the two
agree on a name exactly when the last member with the name has the symbol that prevails. -/
namespace DualImage

namespace SymbolTable
variable {s s' : Symbol} {t : SymbolTable} {tables : List SymbolTable} {name : String}

/-- Later symbols count before earlier ones. -/
theorem find?_ofList_append (xs ys : List Symbol) (name : String) :
    (ofList (xs ++ ys)).find? name = ((ofList ys).find? name).or ((ofList xs).find? name) := by
  simp only [find?_ofList_eq_find?_reverse, List.reverse_append, List.find?_append]

/-- The symbol of the last table that has one of its name. -/
def IsLatest (tables : List SymbolTable) (s : Symbol) : Prop :=
  ∃ earlier t later, tables = earlier ++ t :: later ∧ s ∈ t.symbols ∧
    ∀ u ∈ later, s.name ∉ u.names

theorem isLatest_cons_iff : IsLatest (t :: tables) s ↔
    IsLatest tables s ∨ s ∈ t.symbols ∧ ∀ u ∈ tables, s.name ∉ u.names := by
  constructor
  · rintro ⟨earlier, u, later, hsplit, hs, hlater⟩
    cases earlier with
    | nil =>
      obtain ⟨rfl, rfl⟩ := List.cons.inj hsplit
      exact .inr ⟨hs, hlater⟩
    | cons first earlier =>
      obtain ⟨-, rfl⟩ := List.cons.inj hsplit
      exact .inl ⟨earlier, u, later, rfl, hs, hlater⟩
  · rintro (⟨earlier, u, later, rfl, hs, hlater⟩ | ⟨hs, hnone⟩)
    · exact ⟨t :: earlier, u, later, rfl, hs, hlater⟩
    · exact ⟨[], t, tables, rfl, hs, hnone⟩

/-- What linking keeps is what prevails among the symbols of all tables. -/
theorem find?_of_linkFrom (h : linkFrom ∅ tables = .ok t) :
    t.find? name = some s ↔ s.Prevails (arrivals tables) ∧ s.name = name := by
  rw [find?_eq_some_iff, ((linkFrom_eq_ok_iff .empty).1 h).mem_iff, List.nil_append]

end SymbolTable

namespace Listing
open SymbolTable
variable {o : Origin} {members : List String} {t : SymbolTable} {s : Symbol} {name : String}

/-- Listings in a row, each of which ends its last line if another follows. -/
def Joinable (members : List String) : Prop := ∀ m ∈ members.dropLast, Text.Closed m.toList

instance : Decidable (Joinable members) :=
  inferInstanceAs (Decidable (∀ m ∈ members.dropLast, Text.Closed m.toList))

theorem Joinable.tail {m : String} (h : Joinable (m :: members)) : Joinable members := by
  cases members with
  | nil => intro m hm; cases hm
  | cons next rest => exact fun m hm => h m (List.mem_cons_of_mem _ hm)

namespace Origin

theorem entries_append {a b : String} (h : Text.Closed a.toList) :
    o.entries (a ++ b) = o.entries a ++ o.entries b := by
  obtain ⟨more, hmore, hb⟩ := Text.lines_append h b.toList
  have hempty : o.symbol? [] = none := rfl
  rw [entries, entries, entries, String.toList_append, hmore, List.filterMap_append]
  rcases hb with hb | hb
  · rw [hb]
  · rw [hb, List.filterMap_cons_none hempty]

theorem table_eq_ofList_entries (text : String) : o.table text = .ofList (o.entries text) := rfl

theorem find?_table_append {a b : String} (h : Text.Closed a.toList) :
    (o.table (a ++ b)).find? name = ((o.table b).find? name).or ((o.table a).find? name) := by
  rw [table_eq_ofList_entries, entries_append h, find?_ofList_append]
  rfl

/-- A name of the whole comes from the members behind the first, or else from the first. -/
private theorem find?_table_join_cons {m : String} (h : Joinable (m :: members)) :
    (o.table (String.join (m :: members))).find? name =
      ((o.table (String.join members)).find? name).or ((o.table m).find? name) := by
  rw [String.join_cons]
  cases members with
  | nil =>
    have hnone : (o.table (String.join [])).find? name = none := rfl
    rw [hnone, String.join_nil, String.append_empty, Option.none_or]
  | cons next rest =>
    have hclosed : Text.Closed m.toList := h m (by simp)
    exact find?_table_append hclosed

/-- The whole has the names of all its members. -/
theorem mem_names_table_join (h : Joinable members) :
    name ∈ (o.table (String.join members)).names ↔ ∃ t ∈ members.map o.table, name ∈ t.names := by
  induction members with
  | nil => exact ⟨fun hn => absurd hn List.not_mem_nil, fun ⟨t, ht, _⟩ => absurd ht List.not_mem_nil⟩
  | cons m rest ih =>
    rw [mem_names_iff_find?, find?_table_join_cons h, List.map_cons, List.exists_mem_cons_iff,
      ← ih h.tail, mem_names_iff_find?, mem_names_iff_find?]
    cases (o.table (String.join rest)).find? name <;> simp

/-- The table of the whole holds of every name the symbol of the last member that has one. -/
theorem mem_table_join_iff (h : Joinable members) :
    s ∈ (o.table (String.join members)).symbols ↔ IsLatest (members.map o.table) s := by
  induction members with
  | nil =>
    refine ⟨fun hs => absurd hs List.not_mem_nil, ?_⟩
    rintro ⟨earlier, t, later, hsplit, -⟩
    simp at hsplit
  | cons m rest ih =>
    have hnone : (o.table (String.join rest)).find? s.name = none ↔
        ∀ u ∈ rest.map o.table, s.name ∉ u.names := by
      rw [find?_eq_none_iff, mem_names_table_join h.tail]
      simp only [not_exists, not_and]
    have hmem (t : SymbolTable) : s ∈ t.symbols ↔ t.find? s.name = some s := by
      simp [find?_eq_some_iff]
    rw [List.map_cons, isLatest_cons_iff, ← ih h.tail, ← hnone, hmem, hmem, hmem,
      find?_table_join_cons h, Option.or_eq_some_iff, and_comm (a := _ = none)]

end Origin

/-- All names of the members are in the whole. It agrees with what linking the members keeps of a name
exactly if the last member with the name has the symbol that prevails. A visible symbol that linking
keeps visible is hidden by the whole exactly if the last member hides it. -/
theorem whole_agrees_iff (hmembers : Joinable members)
    (hlink : linkFrom ∅ (members.map o.table) = .ok t) :
    (∀ name, name ∈ (o.table (String.join members)).names ↔ name ∈ t.names) ∧
    (∀ name, (o.table (String.join members)).find? name = t.find? name ↔
      ∀ s, IsLatest (members.map o.table) s → s.name = name →
        s.Prevails (arrivals (members.map o.table))) ∧
    ∀ v ∈ arrivals (members.map o.table), v.isLocal = false →
      (∃ kept, t.find? v.name = some kept ∧ kept.isLocal = false) ∧
      ∃ last, IsLatest (members.map o.table) last ∧
        (o.table (String.join members)).find? v.name = some last := by
  have hresolved : Resolved (arrivals (members.map o.table)) t := by
    simpa using (linkFrom_eq_ok_iff .empty).1 hlink
  have hnames (name : String) :
      name ∈ (o.table (String.join members)).names ↔ name ∈ t.names := by
    rw [Origin.mem_names_table_join hmembers, hresolved.mem_names]
    simp only [arrivals, List.mem_flatMap, mem_names]
    exact ⟨fun ⟨u, hu, s, hs, hname⟩ => ⟨s, ⟨u, hu, hs⟩, hname⟩,
      fun ⟨s, ⟨u, hu, hs⟩, hname⟩ => ⟨u, hu, s, hs, hname⟩⟩
  refine ⟨hnames, fun name => ⟨fun hagree s hlast hname => ?_, fun hprevails => ?_⟩,
    fun v hv hvisible => ⟨?_, ?_⟩⟩
  · have hs := find?_eq_some_iff.2 ⟨(Origin.mem_table_join_iff hmembers).2 hlast, hname⟩
    exact ((find?_of_linkFrom hlink).1 (hagree ▸ hs)).1
  · cases hfind : (o.table (String.join members)).find? name with
    | none =>
      have hnone : name ∉ t.names := fun h => find?_eq_none_iff.1 hfind ((hnames name).2 h)
      exact (find?_eq_none_iff.2 hnone).symm
    | some s =>
      obtain ⟨hs, hname⟩ := find?_eq_some_iff.1 hfind
      have hlast := (Origin.mem_table_join_iff hmembers).1 hs
      exact ((find?_of_linkFrom hlink).2 ⟨hprevails s hlast hname, hname⟩).symm
  · obtain ⟨kept, hkept, hname, hseen, -⟩ := hresolved.exists_visible hv hvisible
    exact ⟨kept, find?_eq_some_iff.2 ⟨hkept, hname⟩, hseen⟩
  · obtain ⟨last, hlast⟩ := mem_names_iff_find?.1
      ((hnames v.name).2 (hresolved.mem_names.2 ⟨v, hv, rfl⟩))
    exact ⟨last, (Origin.mem_table_join_iff hmembers).1 (mem_of_find? hlast), hlast⟩

/-- A member with one variable of the given binding. -/
def variableOf (binding : String) : String := "00000000 " ++ binding ++ "     O .data\t00000004 x\n"

/-- The tables of two such members. -/
def variableTables (first second : String) : List SymbolTable :=
  [variableOf first, variableOf second].map (Origin.ofArchive "p").table

/-- The table of the two members as a whole. -/
def variableTable (first second : String) : SymbolTable :=
  (Origin.ofArchive "p").table (String.join [variableOf first, variableOf second])

/-- The global variable stays if its member is the last. -/
theorem whole_agrees_global_last :
    ∃ t, Joinable [variableOf "l", variableOf "g"] ∧ linkFrom ∅ (variableTables "l" "g") = .ok t ∧
      (variableTable "l" "g").find? "x" = t.find? "x" := by
  have hjoinable : Joinable [variableOf "l", variableOf "g"] := by decide
  refine ⟨_, hjoinable, rfl, ((whole_agrees_iff hjoinable rfl).2.1 "x").2 fun s hs _ => ?_⟩
  obtain ⟨hidden, kept, harrivals, hwhole, hbelow⟩ : ∃ hidden kept,
      arrivals (variableTables "l" "g") = [hidden, kept] ∧
      (variableTable "l" "g").symbols = [kept] ∧ hidden.strength.below kept.strength = true :=
    ⟨_, _, rfl, rfl, by decide +kernel⟩
  have hkept : s ∈ (variableTable "l" "g").symbols := (Origin.mem_table_join_iff hjoinable).2 hs
  rw [hwhole, List.mem_singleton] at hkept
  subst hkept
  exact ⟨[hidden], [], harrivals, by simpa using fun _ => hbelow, by simp⟩

/-- The whole hides the global variable if a local one of its name comes behind it. -/
theorem whole_hides_global_first :
    ∃ t, Joinable [variableOf "g", variableOf "l"] ∧ linkFrom ∅ (variableTables "g" "l") = .ok t ∧
      (t.find? "x").map (·.isLocal) = some false ∧
      ((variableTable "g" "l").find? "x").map (·.isLocal) = some true := by
  refine ⟨_, by decide, rfl, ?_, ?_⟩
  · decide +kernel
  · decide +kernel

end Listing
end DualImage
