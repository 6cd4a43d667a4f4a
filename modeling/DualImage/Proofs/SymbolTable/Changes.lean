import DualImage.Proofs.SymbolTable.Lookup
import Mathlib.Data.List.Perm.Basic
import Mathlib.Data.Nat.Find

/-! A table after any row of additions and removals, told from the row alone. A symbol that
replaces another takes its place, and a name that comes back after it was removed goes to the end.
So the first addition of a name since its last removal settles its place, and the last one its
symbol. -/
namespace DualImage.SymbolTable

inductive Change where
  | add (s : Symbol)
  | remove (name : String)

namespace Change

/-- The only name that the change is about. -/
def name : Change → String
  | add s => s.name
  | remove name => name

def apply (t : SymbolTable) : Change → SymbolTable
  | add s => t.add s
  | remove name => t.remove name

end Change

/-- The empty table after all changes, the first in the list first. -/
def ofChanges (changes : List Change) : SymbolTable := changes.foldl Change.apply ∅

/-- The change at this point adds the name, and no later one removes it. -/
structure StaysFrom (changes : List Change) (name : String) (i : Nat) : Prop where
  added : ∃ s, changes[i]? = some (.add s) ∧ s.name = name
  kept : ∀ j, i < j → changes[j]? ≠ some (.remove name)

/-- The change at this point is the first to add the name since the name was last removed, or since
the start. -/
structure Since (changes : List Change) (name : String) (i : Nat) : Prop where
  stays : StaysFrom changes name i
  first : ∀ j, j < i → ¬ StaysFrom changes name j

/-- The last change of the symbol's name adds the symbol. -/
def Latest (changes : List Change) (s : Symbol) : Prop :=
  ∃ i : Nat, changes[i]? = some (.add s) ∧
    ∀ (j : Nat) (c : Change), i < j → changes[j]? = some c → c.name ≠ s.name

/-- Both names are there, the first of them since an earlier change. -/
def Earlier (changes : List Change) (first second : String) : Prop :=
  ∃ i j, Since changes first i ∧ Since changes second j ∧ i < j

/-- What the changes leave: every name that was added and not removed again, once, with the symbol
added last, in the order in which the names came to stay. -/
structure Iterates (changes : List Change) (symbols : List Symbol) : Prop where
  once : (symbols.map (·.name)).Nodup
  present : ∀ name, name ∈ symbols.map (·.name) ↔ ∃ i, StaysFrom changes name i
  latest : ∀ s ∈ symbols, Latest changes s
  ordered : (symbols.map (·.name)).Pairwise (Earlier changes)

variable {changes : List Change} {c x : Change} {t : SymbolTable} {name : String} {s : Symbol}
  {symbols others : List Symbol} {i j : Nat}

private theorem getElem?_concat_iff :
    (changes ++ [c])[i]? = some x ↔ changes[i]? = some x ∨ i = changes.length ∧ c = x := by
  grind

private theorem getElem?_concat_ne_some (h : changes.length < i) :
    (changes ++ [c])[i]? ≠ some x := by
  rw [List.getElem?_eq_none (by rw [List.length_append]; exact h)]
  nofun

theorem StaysFrom.lt_length (h : StaysFrom changes name i) : i < changes.length := by
  obtain ⟨s, hs, -⟩ := h.added
  exact (List.getElem?_eq_some_iff.1 hs).1

/-- A change at the end may take a name away, or bring one in. -/
theorem staysFrom_concat_iff : StaysFrom (changes ++ [c]) name i ↔
    StaysFrom changes name i ∧ c ≠ .remove name ∨
      i = changes.length ∧ ∃ s, c = .add s ∧ s.name = name := by
  constructor
  · rintro ⟨⟨s, hs, hname⟩, hkept⟩
    rcases getElem?_concat_iff.1 hs with hs | ⟨rfl, hc⟩
    · refine .inl ⟨⟨⟨s, hs, hname⟩, fun j hj h => hkept j hj (getElem?_concat_iff.2 (.inl h))⟩, ?_⟩
      intro hc
      exact hkept _ (List.getElem?_eq_some_iff.1 hs).1 (getElem?_concat_iff.2 (.inr ⟨rfl, hc⟩))
    · exact .inr ⟨rfl, s, hc, hname⟩
  · rintro (⟨⟨⟨s, hs, hname⟩, hkept⟩, hc⟩ | ⟨rfl, s, hc, hname⟩)
    · refine ⟨⟨s, getElem?_concat_iff.2 (.inl hs), hname⟩, fun j hj h => ?_⟩
      rcases getElem?_concat_iff.1 h with h | ⟨-, h⟩
      · exact hkept j hj h
      · exact hc h
    · exact ⟨⟨s, getElem?_concat_iff.2 (.inr ⟨rfl, hc⟩), hname⟩, fun j => getElem?_concat_ne_some⟩

theorem latest_concat_iff : Latest (changes ++ [c]) s ↔
    c = .add s ∨ Latest changes s ∧ c.name ≠ s.name := by
  constructor
  · rintro ⟨i, hs, hlater⟩
    rcases getElem?_concat_iff.1 hs with hs | ⟨-, hc⟩
    · have hi := (List.getElem?_eq_some_iff.1 hs).1
      refine .inr ⟨⟨i, hs, fun j x hj h => hlater j x hj (getElem?_concat_iff.2 (.inl h))⟩, ?_⟩
      exact hlater changes.length c hi (getElem?_concat_iff.2 (.inr ⟨rfl, rfl⟩))
    · exact .inl hc
  · rintro (rfl | ⟨⟨i, hs, hlater⟩, hc⟩)
    · exact ⟨changes.length, getElem?_concat_iff.2 (.inr ⟨rfl, rfl⟩),
        fun j x hj h => absurd h (getElem?_concat_ne_some hj)⟩
    · refine ⟨i, getElem?_concat_iff.2 (.inl hs), fun j x hj h => ?_⟩
      rcases getElem?_concat_iff.1 h with h | ⟨-, rfl⟩
      · exact hlater j x hj h
      · exact hc

theorem Latest.unique {s' : Symbol} (h : Latest changes s) (h' : Latest changes s')
    (hname : s.name = s'.name) : s = s' := by
  obtain ⟨i, hs, hlater⟩ := h
  obtain ⟨j, hs', hlater'⟩ := h'
  rcases Nat.lt_trichotomy i j with hlt | rfl | hlt
  · exact absurd hname.symm (hlater j _ hlt hs')
  · cases hs.symm.trans hs'
    rfl
  · exact absurd hname (hlater' i _ hlt hs)

namespace Since

theorem unique (h : Since changes name i) (h' : Since changes name j) : i = j := by
  rcases Nat.lt_trichotomy i j with hlt | heq | hlt
  · exact absurd h.stays (h'.first i hlt)
  · exact heq
  · exact absurd h'.stays (h.first j hlt)

/-- A change at the end moves no name but the one that it removes. -/
theorem concat (h : Since changes name i) (hc : c ≠ .remove name) :
    Since (changes ++ [c]) name i := by
  refine ⟨staysFrom_concat_iff.2 (.inl ⟨h.stays, hc⟩), fun j hj hstays => ?_⟩
  rcases staysFrom_concat_iff.1 hstays with ⟨hstays, -⟩ | ⟨rfl, -⟩
  · exact h.first j hj hstays
  · exact Nat.lt_asymm hj h.stays.lt_length

/-- A name that is not there comes in with the change that adds it. -/
theorem concat_add (hnew : ∀ j, ¬ StaysFrom changes s.name j) :
    Since (changes ++ [.add s]) s.name changes.length := by
  refine ⟨staysFrom_concat_iff.2 (.inr ⟨rfl, s, rfl, rfl⟩), fun j hj hstays => ?_⟩
  rcases staysFrom_concat_iff.1 hstays with ⟨hstays, -⟩ | ⟨rfl, -⟩
  · exact hnew j hstays
  · exact Nat.lt_irrefl _ hj

end Since

/-- A name that stays has a first point from which it does. -/
theorem exists_since (h : ∃ i, StaysFrom changes name i) : ∃ i, Since changes name i := by
  classical exact ⟨Nat.find h, Nat.find_spec h, fun _ => Nat.find_min h⟩

theorem Earlier.asymm {a b : String} (h : Earlier changes a b) : ¬ Earlier changes b a := by
  rintro ⟨i, j, hb, ha, hlt⟩
  obtain ⟨i', j', ha', hb', hlt'⟩ := h
  obtain rfl := ha.unique ha'
  obtain rfl := hb.unique hb'
  exact Nat.lt_asymm hlt hlt'

theorem Earlier.concat {a b : String} (h : Earlier changes a b) (ha : c ≠ .remove a)
    (hb : c ≠ .remove b) : Earlier (changes ++ [c]) a b := by
  obtain ⟨i, j, hi, hj, hlt⟩ := h
  exact ⟨i, j, hi.concat ha, hj.concat hb, hlt⟩

namespace Iterates

theorem nil : Iterates [] [] where
  once := .nil
  present name := by
    refine iff_of_false List.not_mem_nil ?_
    rintro ⟨i, hi⟩
    exact Nat.not_lt_zero i hi.lt_length
  latest _ hs := absurd hs List.not_mem_nil
  ordered := .nil

private theorem names_add_ordered (h : Iterates changes t.symbols) (s : Symbol) :
    (t.add s).names.Pairwise (Earlier (changes ++ [.add s])) := by
  have hold : t.names.Pairwise (Earlier (changes ++ [.add s])) :=
    h.ordered.imp fun hab => hab.concat nofun nofun
  rw [names_add]
  split
  · exact hold
  · next hnew =>
    -- the new name has the latest point of all, so it may stand at the end
    have hnever : ∀ j, ¬ StaysFrom changes s.name j := fun j hj => hnew ((h.present _).2 ⟨j, hj⟩)
    refine List.pairwise_append.2 ⟨hold, List.pairwise_singleton .., fun a ha b hb => ?_⟩
    obtain rfl := List.mem_singleton.1 hb
    obtain ⟨i, hi⟩ := exists_since ((h.present a).1 ha)
    exact ⟨i, changes.length, hi.concat nofun, .concat_add hnever, hi.stays.lt_length⟩

theorem add (h : Iterates changes t.symbols) (s : Symbol) :
    Iterates (changes ++ [.add s]) (t.add s).symbols where
  once := (t.add s).distinct
  present name := by
    have hnames : name ∈ (t.add s).names ↔ name ∈ t.names ∨ name = s.name := by
      rw [names_add]
      split
      · next hs => exact (or_iff_left_of_imp fun hname => hname ▸ hs).symm
      · rw [List.mem_append, List.mem_singleton]
    refine hnames.trans ?_
    simp only [staysFrom_concat_iff, exists_or, exists_and_right]
    refine or_congr ?_ ?_
    · exact (h.present name).trans (by simp)
    · simp [eq_comm]
  latest x hx := by
    rcases mem_symbols_add.1 hx with rfl | ⟨hx, hne⟩
    · exact latest_concat_iff.2 (.inl rfl)
    · exact latest_concat_iff.2 (.inr ⟨h.latest x hx, Ne.symm hne⟩)
  ordered := h.names_add_ordered s

theorem remove (h : Iterates changes t.symbols) (gone : String) :
    Iterates (changes ++ [.remove gone]) (t.remove gone).symbols where
  once := (t.remove gone).distinct
  present name := by
    have hnames : name ∈ (t.remove gone).names ↔ name ∈ t.names ∧ name ≠ gone := by
      rw [names_remove, List.mem_filter, bne_iff_ne]
    refine hnames.trans ?_
    simp only [staysFrom_concat_iff, reduceCtorEq, false_and, exists_const, and_false, or_false,
      exists_and_right]
    exact and_congr (h.present name) (by simp [eq_comm])
  latest x hx := by
    obtain ⟨hx, hne⟩ := List.mem_filter.1 hx
    exact latest_concat_iff.2 (.inr ⟨h.latest x hx, (bne_iff_ne.1 hne).symm⟩)
  ordered := by
    have hsub : (t.remove gone).names.Pairwise (Earlier changes) := by
      rw [names_remove]
      exact h.ordered.filter _
    have hne {a : String} (ha : a ∈ (t.remove gone).names) : Change.remove gone ≠ .remove a := by
      rw [names_remove, List.mem_filter, bne_iff_ne] at ha
      rintro ⟨⟩
      exact ha.2 rfl
    exact hsub.imp_of_mem fun ha hb hab => hab.concat (hne ha) (hne hb)

/-- The changes leave no choice: they settle the symbols and their order. -/
theorem unique (h : Iterates changes symbols) (h' : Iterates changes others) :
    symbols = others := by
  -- a name that is present has its latest symbol in either list
  have hsub {xs ys : List Symbol} (hxs : Iterates changes xs) (hys : Iterates changes ys) :
      xs ⊆ ys := by
    intro s hs
    have hname := (hys.present s.name).2 ((hxs.present s.name).1 (List.mem_map_of_mem hs))
    obtain ⟨s', hs', heq⟩ := List.mem_map.1 hname
    rwa [(hxs.latest s hs).unique (hys.latest s' hs') heq.symm]
  have hperm : symbols.Perm others :=
    (List.perm_ext_iff_of_nodup (.of_map _ h.once) (.of_map _ h'.once)).2
      fun s => ⟨fun hs => hsub h h' hs, fun hs => hsub h' h hs⟩
  refine hperm.eq_of_pairwise ?_ (List.pairwise_map.1 h.ordered) (List.pairwise_map.1 h'.ordered)
  intro a b _ _ hab hba
  exact absurd hba hab.asymm

end Iterates

theorem iterates_ofChanges (changes : List Change) :
    Iterates changes (ofChanges changes).symbols := by
  induction changes using List.reverseRecOn with
  | nil => exact .nil
  | append_singleton changes c ih =>
    rw [ofChanges, List.foldl_append, List.foldl_cons, List.foldl_nil]
    cases c with
    | add s => exact ih.add s
    | remove name => exact ih.remove name

/-- The changes settle what a table shows and in which order. Every look at the table agrees with
that, and so do a copy of it and all that is picked out of it. -/
theorem told_by_changes (changes : List Change) :
    let t := ofChanges changes
    (∀ symbols, symbols = t.symbols ↔ Iterates changes symbols) ∧
      (∀ name s, t.find? name = some s ↔ s ∈ t.symbols ∧ s.name = name) ∧
      (∀ name, t.contains name = true ↔ ∃ s ∈ t.symbols, s.name = name) ∧
      t.size = t.symbols.length ∧ t.sortedNames.Perm (t.symbols.map (·.name)) ∧
      t.copy.symbols = t.symbols ∧
      ∀ keep, t.filter keep = ofList (t.symbols.filter keep) ∧
        (t.filter keep).symbols = t.symbols.filter keep := by
  intro t
  have hiterates := iterates_ofChanges changes
  refine ⟨fun symbols => ⟨?_, fun h => h.unique hiterates⟩, fun _ _ => find?_eq_some_iff,
    fun _ => contains_iff.trans mem_names, rfl, Text.sorted_perm _, ?_, fun keep => ⟨?_, rfl⟩⟩
  · rintro rfl
    exact hiterates
  · rw [copy, ofList_symbols]
  · exact (ofList_symbols (t.filter keep)).symm

/-- A symbol takes the place of the one that it replaces, unless that was removed before. -/
example :
    let symbol (name : String) (size : Int) : Symbol :=
      ⟨name, "g     F", ".text", size, 0, "p", ".a"⟩
    let changes : List Change := [.add (symbol "a" 4), .add (symbol "b" 4)]
    (ofChanges (changes ++ [.add (symbol "a" 8)])).symbols = [symbol "a" 8, symbol "b" 4] ∧
      (ofChanges (changes ++ [.remove "a", .add (symbol "a" 8)])).symbols =
        [symbol "b" 4, symbol "a" 8] := by
  decide

end DualImage.SymbolTable
