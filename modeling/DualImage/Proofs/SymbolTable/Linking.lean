import DualImage.Failure
import DualImage.Proofs.SymbolTable.Lookup
import DualImage.SymbolTable.Merge

/-! Many tables folded into one. The order in which two symbols meet decides nothing but which of
two equally strong ones stays: the table holds the strongest symbol of every name. -/
namespace DualImage

theorem Symbol.Strength.eq_or_below_of_not_below {a b : Strength} (h : a.below b = false) :
    a = b ∨ b.below a = true := by
  cases a <;> cases b <;> simp_all [below]
  omega

theorem Symbol.Strength.strong_of_not_below {a : Strength} (h : a.below .strong = false) :
    a = .strong := by
  cases a <;> simp_all [below]

namespace Symbol

/-- Strong symbols of one name. -/
def Rivals (a b : Symbol) : Prop := a.name = b.name ∧ a.strength = .strong ∧ b.strength = .strong

/-- Among the symbols of its name in the list, the earliest of the strongest. -/
def Prevails (s : Symbol) (symbols : List Symbol) : Prop :=
  ∃ earlier later, symbols = earlier ++ s :: later ∧
    (∀ e ∈ earlier, e.name = s.name → e.strength.below s.strength = true) ∧
    ∀ l ∈ later, l.name = s.name → s.strength.below l.strength = false

namespace Prevails
variable {s x : Symbol} {symbols : List Symbol}

theorem mem (h : s.Prevails symbols) : s ∈ symbols := by
  obtain ⟨earlier, later, rfl, -⟩ := h
  exact List.mem_append_right _ List.mem_cons_self

theorem not_below (h : s.Prevails symbols) (hx : x ∈ symbols) (hname : x.name = s.name) :
    s.strength.below x.strength = false := by
  obtain ⟨earlier, later, rfl, hearlier, hlater⟩ := h
  rcases List.mem_append.1 hx with hx | hx
  · by_contra hb
    have hloop := Strength.below_trans (Bool.of_not_eq_false hb) (hearlier x hx hname)
    rw [Strength.below_irrefl] at hloop
    cases hloop
  · rcases List.mem_cons.1 hx with rfl | hx
    · exact Strength.below_irrefl _
    · exact hlater x hx hname

/-- A rival of a later symbol makes the one that prevails a rival too. -/
theorem rivals (h : s.Prevails symbols) (hx : x ∈ symbols) (hname : x.name = s.name) {y : Symbol}
    (hxy : x.Rivals y) : s.Rivals y := by
  have hb := h.not_below hx hname
  rw [hxy.2.1] at hb
  exact ⟨hname.symm.trans hxy.1, Strength.strong_of_not_below hb, hxy.2.2⟩

theorem append (h : s.Prevails symbols) (hx : x.name = s.name → s.strength.below x.strength = false) :
    s.Prevails (symbols ++ [x]) := by
  obtain ⟨earlier, later, rfl, hearlier, hlater⟩ := h
  refine ⟨earlier, later ++ [x], by simp, hearlier, ?_⟩
  intro l hl hname
  rcases List.mem_append.1 hl with hl | hl
  · exact hlater l hl hname
  · rw [List.mem_singleton] at hl
    subst hl
    exact hx hname

theorem replace (h : s.Prevails symbols) (hname : s.name = x.name)
    (hb : s.strength.below x.strength = true) : x.Prevails (symbols ++ [x]) := by
  refine ⟨symbols, [], rfl, ?_, by simp⟩
  intro e he hex
  have hse := h.not_below he (hex.trans hname.symm)
  rcases Strength.eq_or_below_of_not_below hse with heq | hlt
  · rw [← heq]
    exact hb
  · exact Strength.below_trans hlt hb

theorem first (h : ∀ e ∈ symbols, e.name ≠ x.name) : x.Prevails (symbols ++ [x]) :=
  ⟨symbols, [], rfl, fun e he hname => absurd hname (h e he), by simp⟩

end Prevails
end Symbol

namespace SymbolTable

/-- The table holds what a linker keeps of the symbols seen so far, and no two of them are rivals. -/
structure Resolved (seen : List Symbol) (t : SymbolTable) : Prop where
  names : t.names = (seen.map (·.name)).eraseDups
  prevails : ∀ s ∈ t.symbols, s.Prevails seen
  peaceful : seen.Pairwise fun a b => ¬ a.Rivals b

namespace Resolved
variable {seen : List Symbol} {t : SymbolTable} {s old : Symbol}

theorem empty : Resolved [] ∅ := ⟨rfl, fun _ hs => (List.not_mem_nil hs).elim, .nil⟩

theorem mem_names (h : Resolved seen t) {name : String} :
    name ∈ t.names ↔ ∃ s ∈ seen, s.name = name := by
  rw [h.names, List.mem_eraseDups, List.mem_map]

/-- A visible symbol is never hidden by others. -/
theorem exists_visible (h : Resolved seen t) (hs : s ∈ seen) (hvisible : s.isLocal = false) :
    ∃ kept ∈ t.symbols, kept.name = s.name ∧ kept.isLocal = false ∧ kept ∈ seen := by
  obtain ⟨kept, hkept, hname⟩ := SymbolTable.mem_names.1 (h.mem_names.2 ⟨s, hs, rfl⟩)
  have hprevails := h.prevails kept hkept
  refine ⟨kept, hkept, hname, Bool.of_not_eq_true fun hhidden => ?_, hprevails.mem⟩
  have hbelow := hprevails.not_below hs hname.symm
  have hstrength : kept.strength = .hidden := if_pos hhidden
  have hne : s.strength ≠ .hidden := by
    unfold Symbol.strength
    simp only [hvisible, Bool.false_eq_true, if_false]
    split_ifs <;> simp
  rw [hstrength, Symbol.Strength.below, bne_eq_false_iff_eq] at hbelow
  exact hne hbelow

private theorem eraseDups_append_singleton (names : List String) (n : String) :
    (names ++ [n]).eraseDups =
      if n ∈ names then names.eraseDups else names.eraseDups ++ [n] := by
  rw [List.eraseDups_append]
  by_cases h : n ∈ names <;> simp [List.removeAll, List.eraseDups_cons, h]

private theorem peaceful_append (h : seen.Pairwise fun a b => ¬ a.Rivals b)
    (hs : ∀ e ∈ seen, ¬ e.Rivals s) : (seen ++ [s]).Pairwise fun a b => ¬ a.Rivals b := by
  refine List.pairwise_append.2 ⟨h, List.pairwise_singleton .., ?_⟩
  intro e he x hx
  rw [List.mem_singleton] at hx
  subst hx
  exact hs e he

theorem add_new (h : Resolved seen t) (hs : s.name ∉ t.names) :
    Resolved (seen ++ [s]) (t.add s) := by
  have hnew : ∀ e ∈ seen, e.name ≠ s.name := fun e he hname => hs (h.mem_names.2 ⟨e, he, hname⟩)
  refine ⟨?_, ?_, peaceful_append h.peaceful fun e he hr => hnew e he hr.1⟩
  · rw [names_add, if_neg hs, h.names, List.map_append, List.map_singleton,
      eraseDups_append_singleton, if_neg (by simpa using hnew)]
  · intro x hx
    rcases mem_symbols_add.1 hx with rfl | ⟨hx, hne⟩
    · exact .first hnew
    · exact (h.prevails x hx).append fun hname => absurd hname.symm hne

private theorem names_append_of_mem (h : Resolved seen t) (hs : s.name ∈ t.names) :
    t.names = ((seen ++ [s]).map (·.name)).eraseDups := by
  rw [List.map_append, List.map_singleton, eraseDups_append_singleton,
    if_pos (List.mem_map.2 (h.mem_names.1 hs))]
  exact h.names

theorem replace (h : Resolved seen t) (hold : t.find? s.name = some old)
    (hb : old.strength.below s.strength = true) : Resolved (seen ++ [s]) (t.add s) := by
  have hname := name_of_find? hold
  have hprevails := h.prevails old (mem_of_find? hold)
  have hs : s.name ∈ t.names := mem_names_iff_find?.2 ⟨old, hold⟩
  refine ⟨?_, ?_, peaceful_append h.peaceful ?_⟩
  · rw [names_add, if_pos hs]
    exact h.names_append_of_mem hs
  · intro x hx
    rcases mem_symbols_add.1 hx with rfl | ⟨hx, hne⟩
    · exact hprevails.replace hname hb
    · exact (h.prevails x hx).append fun he => absurd he.symm hne
  · intro e he hr
    have hrivals := hprevails.rivals he (hr.1.trans hname.symm) hr
    rw [hrivals.2.1, hrivals.2.2, Symbol.Strength.below_irrefl] at hb
    cases hb

theorem keep (h : Resolved seen t) (hold : t.find? s.name = some old)
    (hb : old.strength.below s.strength = false) (hr : ¬ old.Rivals s) :
    Resolved (seen ++ [s]) t := by
  have hname := name_of_find? hold
  refine ⟨h.names_append_of_mem (mem_names_iff_find?.2 ⟨old, hold⟩), ?_,
    peaceful_append h.peaceful ?_⟩
  · intro x hx
    refine (h.prevails x hx).append fun he => ?_
    rw [eq_of_name_eq hx (mem_of_find? hold) (he.symm.trans hname.symm)]
    exact hb
  · intro e he her
    exact hr ((h.prevails old (mem_of_find? hold)).rivals he (her.1.trans hname.symm) her)

end Resolved
namespace Merge
variable {m : Merge} {s old : Symbol} {seen : List Symbol}

private theorem step_new (hm : m.clash = none) (hold : m.target.find? s.name = none) :
    (m.step s).target = m.target.add s ∧ (m.step s).clash = none := by
  simp [step, hm, hold]

private theorem step_below (hm : m.clash = none) (hold : m.target.find? s.name = some old)
    (hb : old.strength.below s.strength = true) :
    (m.step s).target = m.target.add s ∧ (m.step s).clash = none := by
  have hv : SymbolPair.verdict ⟨old, s⟩ = .replace := (SymbolPair.verdict_eq_replace_iff _).2 hb
  simp [step, hm, hold, hv]

private theorem step_strong (hm : m.clash = none) (hold : m.target.find? s.name = some old)
    (hr : old.Rivals s) : (m.step s).clash = some ⟨old, s⟩ := by
  have hv : SymbolPair.verdict ⟨old, s⟩ = .clash :=
    (SymbolPair.verdict_eq_clash_iff _).2 ⟨hr.2.1, hr.2.2⟩
  simp [step, hm, hold, hv]

private theorem step_kept (hm : m.clash = none) (hold : m.target.find? s.name = some old)
    (hb : old.strength.below s.strength = false) (hr : ¬ old.Rivals s) :
    (m.step s).target = m.target ∧ (m.step s).clash = none := by
  have hreplace : SymbolPair.verdict ⟨old, s⟩ ≠ .replace := by
    rw [Ne, SymbolPair.verdict_eq_replace_iff, hb]
    simp
  have hclash : SymbolPair.verdict ⟨old, s⟩ ≠ .clash := by
    rw [Ne, SymbolPair.verdict_eq_clash_iff]
    exact fun h => hr ⟨name_of_find? hold, h⟩
  simp only [step, hm, hold]
  cases hv : SymbolPair.verdict ⟨old, s⟩ with
  | keep => simp [hm]
  | drop => exact ⟨rfl, rfl⟩
  | replace => exact absurd hv hreplace
  | clash => exact absurd hv hclash

/-- One symbol more: it clashes with a rival from before, or the target takes account of it. -/
theorem step_resolved (h : Resolved seen m.target) (hm : m.clash = none) (s : Symbol) :
    (m.step s).clash = none ∧ Resolved (seen ++ [s]) (m.step s).target ∨
      ∃ old ∈ seen, old.Rivals s ∧ (m.step s).clash = some ⟨old, s⟩ := by
  cases hold : m.target.find? s.name with
  | none =>
    obtain ⟨htarget, hclash⟩ := step_new hm hold
    rw [htarget]
    exact .inl ⟨hclash, h.add_new (find?_eq_none_iff.1 hold)⟩
  | some old =>
    cases hb : old.strength.below s.strength with
    | true =>
      obtain ⟨htarget, hclash⟩ := step_below hm hold hb
      rw [htarget]
      exact .inl ⟨hclash, h.replace hold hb⟩
    | false =>
      by_cases hr : old.Rivals s
      · exact .inr ⟨old, (h.prevails old (mem_of_find? hold)).mem, hr, step_strong hm hold hr⟩
      · obtain ⟨htarget, hclash⟩ := step_kept hm hold hb hr
        rw [htarget]
        exact .inl ⟨hclash, h.keep hold hb hr⟩

/-- A run of symbols: all of them are taken account of, or the first that meets a rival ends it. -/
theorem foldl_step_resolved (h : Resolved seen m.target) (hm : m.clash = none)
    (symbols : List Symbol) :
    (symbols.foldl step m).clash = none ∧
        Resolved (seen ++ symbols) (symbols.foldl step m).target ∨
      ∃ before s after, symbols = before ++ s :: after ∧
        (seen ++ before).Pairwise (fun a b => ¬ a.Rivals b) ∧
        ∃ old ∈ seen ++ before, old.Rivals s ∧
          (symbols.foldl step m).clash = some ⟨old, s⟩ := by
  induction symbols generalizing m seen with
  | nil =>
    rw [List.append_nil]
    exact .inl ⟨hm, h⟩
  | cons s rest ih =>
    rw [List.foldl_cons]
    rcases step_resolved h hm s with ⟨hclash, hres⟩ | ⟨old, hold, hr, hclash⟩
    · rcases ih hres hclash with hdone | ⟨before, x, after, rfl, hpeace, old, hold, hr, hx⟩
      · rw [List.append_assoc] at hdone
        exact .inl hdone
      · rw [List.append_assoc] at hpeace hold
        exact .inr ⟨s :: before, x, after, rfl, hpeace, old, hold, hr, hx⟩
    · refine .inr ⟨[], s, rest, rfl, ?_, old, ?_, hr, ?_⟩
      · rw [List.append_nil]
        exact h.peaceful
      · rw [List.append_nil]
        exact hold
      · rw [foldl_step_of_clash (by rw [hclash]; rfl), hclash]

/-- The folded table, or the failure that a clash is. -/
def outcome (m : Merge) : Except Failure SymbolTable :=
  match m.clash with
  | none => .ok m.target
  | some p => .error (.clash p.name p.first.package p.second.package)

end Merge

/-- Tables folded one after another into the first. -/
def linkFrom (t : SymbolTable) : List SymbolTable → Except Failure SymbolTable
  | [] => .ok t
  | s :: rest => (t.merge s).outcome >>= fun t => linkFrom t rest

/-- Symbols in the order in which the tables bring them. -/
def arrivals (tables : List SymbolTable) : List Symbol := tables.flatMap (·.symbols)

/-- The first strong symbol, in the order of arrival, whose name a table before its own already
holds strongly, with the symbol of that table. -/
structure FirstClash (tables : List SymbolTable) (old s : Symbol) : Prop where
  rivals : old.Rivals s
  place : ∃ earlier t later before after, tables = earlier ++ t :: later ∧
    t.symbols = before ++ s :: after ∧ old ∈ arrivals earlier ∧
    (arrivals earlier ++ before).Pairwise fun a b => ¬ a.Rivals b

/-- Two of the tables hold strong symbols of one name. -/
def Rivalry (tables : List SymbolTable) : Prop :=
  ∃ earlier t between u later, tables = earlier ++ t :: (between ++ u :: later) ∧
    ∃ a ∈ t.symbols, ∃ b ∈ u.symbols, a.Rivals b

theorem FirstClash.rivalry {tables : List SymbolTable} {old s : Symbol}
    (h : FirstClash tables old s) : Rivalry tables := by
  obtain ⟨earlier, u, later, before, after, rfl, hsplit, hold, -⟩ := h.place
  obtain ⟨t, ht, hmem⟩ := List.mem_flatMap.1 hold
  obtain ⟨first, between, rfl⟩ := List.append_of_mem ht
  refine ⟨first, t, between, u, later, by simp, old, hmem, s, ?_, h.rivals⟩
  rw [hsplit]
  exact List.mem_append_right _ List.mem_cons_self

theorem Resolved.names_eq {tables : List SymbolTable} {t : SymbolTable}
    (h : Resolved (arrivals tables) t) : t.names = (tables.flatMap (·.names)).eraseDups := by
  rw [h.names, arrivals, List.map_flatMap]
  rfl

theorem Resolved.not_rivalry {tables : List SymbolTable} {t : SymbolTable}
    (h : Resolved (arrivals tables) t) : ¬ Rivalry tables := by
  rintro ⟨earlier, first, between, second, later, rfl, a, ha, b, hb, hab⟩
  have hpairs := (List.pairwise_flatMap.1 h.peaceful).2
  have hfirst := List.rel_of_pairwise_cons (List.pairwise_append.1 hpairs).2.1
    (List.mem_append_right between List.mem_cons_self)
  exact hfirst a ha b hb hab

private theorem name_notMem_before {t : SymbolTable} {before after : List Symbol} {s old : Symbol}
    (h : t.symbols = before ++ s :: after) (hname : old.name = s.name) : old ∉ before := by
  intro hold
  have hd := t.distinct
  rw [h, List.map_append, List.nodup_append] at hd
  exact hd.2.2 old.name (List.mem_map_of_mem hold) s.name (List.mem_map_of_mem List.mem_cons_self)
    hname

theorem linkFrom_resolved {earlier : List SymbolTable} {t : SymbolTable}
    (h : Resolved (arrivals earlier) t) (tables : List SymbolTable) :
    match linkFrom t tables with
    | .ok result => Resolved (arrivals (earlier ++ tables)) result
    | .error failure => ∃ old s, FirstClash (earlier ++ tables) old s ∧
        failure = .clash s.name old.package s.package := by
  induction tables generalizing earlier t with
  | nil =>
    rw [List.append_nil]
    exact h
  | cons table rest ih =>
    rw [linkFrom]
    rcases Merge.foldl_step_resolved (m := ⟨t, table, [], none⟩) h rfl table.symbols with
      ⟨hclash, hres⟩ | ⟨before, s, after, hsplit, hpeace, old, hold, hr, hclash⟩
    · have hok : (t.merge table).outcome = .ok (t.merge table).target := by
        rw [Merge.outcome, merge, hclash]
      have happend : arrivals (earlier ++ [table]) = arrivals earlier ++ table.symbols := by
        simp [arrivals]
      have hnext := ih (happend ▸ hres : Resolved (arrivals (earlier ++ [table])) _)
      rw [List.append_assoc] at hnext
      rw [hok]
      exact hnext
    · have herror : (t.merge table).outcome = .error (.clash old.name old.package s.package) := by
        rw [Merge.outcome, merge, hclash]
        rfl
      rw [herror]
      refine ⟨old, s, ⟨hr, earlier, table, rest, before, after, rfl, hsplit, ?_, hpeace⟩, ?_⟩
      · exact (List.mem_append.1 hold).resolve_right (name_notMem_before hsplit hr.1)
      · rw [hr.1]

end SymbolTable
end DualImage
