import DualImage.Proofs.Text.Order
import DualImage.SymbolTable.Comparison
import Mathlib.Data.List.Induction
import Mathlib.Data.List.Nodup

/-! What every operation on a table does to the look-up of a name. -/
namespace DualImage.SymbolTable

variable {t a b : SymbolTable} {s : Symbol} {name : String}

@[simp] theorem mem_names : name ∈ t.names ↔ ∃ s ∈ t.symbols, s.name = name := List.mem_map

/-- A name stands for one symbol, so the first one found is the only one. -/
theorem eq_of_name_eq {s' : Symbol} (hs : s ∈ t.symbols) (hs' : s' ∈ t.symbols)
    (h : s.name = s'.name) : s = s' :=
  List.inj_on_of_nodup_map t.distinct hs hs' h

theorem find?_eq_some_iff : t.find? name = some s ↔ s ∈ t.symbols ∧ s.name = name := by
  constructor
  · intro h
    exact ⟨mem_of_find? h, name_of_find? h⟩
  · rintro ⟨hs, rfl⟩
    cases h : t.find? s.name with
    | none => exact absurd (mem_names.2 ⟨s, hs, rfl⟩) (find?_eq_none_iff.1 h)
    | some s' => rw [eq_of_name_eq (mem_of_find? h) hs (name_of_find? h)]

theorem find?_name (h : s ∈ t.symbols) : t.find? s.name = some s :=
  find?_eq_some_iff.2 ⟨h, rfl⟩

theorem mem_names_iff_find? : name ∈ t.names ↔ ∃ s, t.find? name = some s := by
  simp only [mem_names, find?_eq_some_iff]

theorem contains_iff : t.contains name = true ↔ name ∈ t.names := by
  rw [contains, Option.isSome_iff_exists, mem_names_iff_find?]

theorem find?_filter_eq_some_iff {keep : Symbol → Bool} :
    (t.filter keep).find? name = some s ↔ t.find? name = some s ∧ keep s = true := by
  simp only [find?_eq_some_iff, filter, List.mem_filter]
  exact and_right_comm

theorem find?_remove (t : SymbolTable) (gone name : String) :
    (t.remove gone).find? name = if name = gone then none else t.find? name := by
  apply Option.ext
  intro s
  rw [remove, find?_filter_eq_some_iff]
  split
  · next h =>
    subst h
    simp only [reduceCtorEq, iff_false, not_and]
    intro hs
    simp [name_of_find? hs]
  · next h =>
    refine ⟨And.left, fun hs => ⟨hs, ?_⟩⟩
    simpa [name_of_find? hs] using h

theorem find?_foldl_remove (gone : List String) (t : SymbolTable) (name : String) :
    (gone.foldl remove t).find? name = if name ∈ gone then none else t.find? name := by
  induction gone generalizing t with
  | nil => simp
  | cons n rest ih =>
    rw [List.foldl_cons, ih, find?_remove]
    by_cases hr : name ∈ rest <;> by_cases hn : name = n <;> simp [hr, hn]

theorem find?_add (t : SymbolTable) (s : Symbol) (name : String) :
    (t.add s).find? name = if name = s.name then some s else t.find? name := by
  apply Option.ext
  intro s'
  rw [find?_eq_some_iff, mem_symbols_add]
  split
  · next h =>
    subst h
    constructor
    · rintro ⟨rfl | ⟨-, hne⟩, he⟩
      · rfl
      · exact absurd he hne
    · intro h
      obtain rfl := Option.some.inj h
      exact ⟨.inl rfl, rfl⟩
  · next h =>
    rw [find?_eq_some_iff]
    constructor
    · rintro ⟨rfl | ⟨hs', -⟩, he⟩
      · exact absurd he.symm h
      · exact ⟨hs', he⟩
    · rintro ⟨hs', rfl⟩
      exact ⟨.inr ⟨hs', h⟩, rfl⟩

/-- The last symbol of a name counts. -/
theorem find?_ofList_eq_find?_reverse (symbols : List Symbol) (name : String) :
    (ofList symbols).find? name = symbols.reverse.find? (·.name == name) := by
  induction symbols using List.reverseRecOn with
  | nil => rfl
  | append_singleton earlier s ih =>
    have hadd : ofList (earlier ++ [s]) = (ofList earlier).add s := by simp [ofList]
    rw [hadd, find?_add, ih, List.reverse_append, List.reverse_singleton, List.singleton_append]
    split
    · next hname => rw [List.find?_cons_of_pos (by simpa using hname.symm)]
    · next hname => rw [List.find?_cons_of_neg (by simpa using Ne.symm hname)]

theorem mem_of_mem_ofList {symbols : List Symbol} (h : s ∈ (ofList symbols).symbols) :
    s ∈ symbols := by
  have hfind := find?_name h
  rw [find?_ofList_eq_find?_reverse] at hfind
  exact List.mem_reverse.1 (List.mem_of_find?_eq_some hfind)

private theorem mem_foldl_add {symbols : List Symbol}
    (hone : ∀ a, a ∈ t.symbols ∨ a ∈ symbols → ∀ b ∈ symbols, a.name = b.name → a = b) :
    s ∈ (symbols.foldl add t).symbols ↔ s ∈ t.symbols ∨ s ∈ symbols := by
  induction symbols generalizing t with
  | nil => simp
  | cons x rest ih =>
    have hold (a : Symbol) : a ∈ (t.add x).symbols ∨ a ∈ rest → a ∈ t.symbols ∨ a ∈ x :: rest := by
      rw [mem_symbols_add, List.mem_cons]
      rintro ((rfl | ⟨ha, -⟩) | ha)
      · exact .inr (.inl rfl)
      · exact .inl ha
      · exact .inr (.inr ha)
    rw [List.foldl_cons, ih]
    · refine ⟨hold s, ?_⟩
      rw [mem_symbols_add, List.mem_cons]
      rintro (hs | rfl | hs)
      · by_cases hname : s.name = x.name
        · exact .inl (.inl (hone s (.inl hs) x List.mem_cons_self hname))
        · exact .inl (.inr ⟨hs, hname⟩)
      · exact .inl (.inl rfl)
      · exact .inr hs
    · exact fun a ha b hb => hone a (hold a ha) b (List.mem_cons_of_mem x hb)

/-- Where no two symbols of a list share a name, its table holds them all. -/
theorem find?_ofList {symbols : List Symbol}
    (hone : ∀ a ∈ symbols, ∀ b ∈ symbols, a.name = b.name → a = b) :
    (ofList symbols).find? name = some s ↔ s ∈ symbols ∧ s.name = name := by
  rw [find?_eq_some_iff, ofList, mem_foldl_add]
  · exact and_congr_left' (or_iff_right List.not_mem_nil)
  · rintro a (ha | ha)
    · cases ha
    · exact hone a ha

theorem eq_of_symbols_eq (h : a.symbols = b.symbols) : a = b := by
  cases a
  cases b
  cases h
  rfl

private theorem symbols_ofList {symbols : List Symbol} (h : (symbols.map (·.name)).Nodup) :
    (ofList symbols).symbols = symbols := by
  induction symbols using List.reverseRecOn with
  | nil => rfl
  | append_singleton earlier s ih =>
    rw [List.map_append, List.nodup_append] at h
    have hearlier := ih h.1
    have hnew : s.name ∉ (ofList earlier).symbols.map (·.name) := by
      rw [hearlier]
      exact fun hs => h.2.2 s.name hs s.name (by simp) rfl
    have hadd : ofList (earlier ++ [s]) = (ofList earlier).add s := by simp [ofList]
    rw [hadd, add, dif_neg hnew]
    exact congrArg (· ++ [s]) hearlier

/-- A table is what its own symbols make up. -/
theorem ofList_symbols (t : SymbolTable) : ofList t.symbols = t :=
  eq_of_symbols_eq (symbols_ofList t.distinct)

end DualImage.SymbolTable
