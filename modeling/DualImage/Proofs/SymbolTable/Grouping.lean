import DualImage.Proofs.SymbolTable.Linking
import DualImage.Proofs.Workspace.Action

/-! Folding depends on the symbols and their order of arrival, not on how they are grouped. Among
orders of arrival it tells apart only symbols of one name that are equally strong. -/
namespace DualImage
namespace Symbol.Prevails
variable {s s' x : Symbol} {xs ys symbols : List Symbol}

theorem append_iff : s.Prevails (xs ++ ys) ↔
    s.Prevails xs ∧ (∀ y ∈ ys, y.name = s.name → s.strength.below y.strength = false) ∨
      (∀ x ∈ xs, x.name = s.name → x.strength.below s.strength = true) ∧ s.Prevails ys := by
  constructor
  · rintro ⟨earlier, later, hsplit, hearlier, hlater⟩
    rcases List.append_eq_append_iff.1 hsplit with ⟨between, rfl, rfl⟩ | ⟨between, rfl, hys⟩
    · refine .inr ⟨fun x hx => hearlier x (List.mem_append_left _ hx), between, later, rfl, ?_,
        hlater⟩
      exact fun e he => hearlier e (List.mem_append_right _ he)
    · cases between with
      | nil =>
        rw [List.nil_append] at hys
        rw [List.append_nil]
        exact .inr ⟨hearlier, [], later, hys.symm, by simp, hlater⟩
      | cons first between =>
        obtain ⟨rfl, rfl⟩ := List.cons.inj hys
        refine .inl ⟨⟨earlier, between, rfl, hearlier, ?_⟩, ?_⟩
        · exact fun l hl => hlater l (List.mem_append_left _ hl)
        · exact fun y hy => hlater y (List.mem_append_right _ hy)
  · rintro (⟨⟨earlier, later, rfl, hearlier, hlater⟩, hys⟩ |
      ⟨hxs, earlier, later, rfl, hearlier, hlater⟩)
    · refine ⟨earlier, later ++ ys, by simp, hearlier, fun l hl => ?_⟩
      exact (List.mem_append.1 hl).elim (hlater l) (hys l)
    · refine ⟨xs ++ earlier, later, by simp, fun e he => ?_, hlater⟩
      exact (List.mem_append.1 he).elim (hxs e) (hearlier e)

theorem cons_iff : s.Prevails (x :: symbols) ↔
    s = x ∧ (∀ y ∈ symbols, y.name = s.name → s.strength.below y.strength = false) ∨
      (x.name = s.name → x.strength.below s.strength = true) ∧ s.Prevails symbols := by
  have hone : s.Prevails [x] ↔ s = x := by
    refine ⟨fun h => List.mem_singleton.1 h.mem, ?_⟩
    rintro rfl
    exact ⟨[], [], rfl, by simp, by simp⟩
  have happend : s.Prevails ([x] ++ symbols) ↔ _ := append_iff
  simpa [hone] using happend

/-- One symbol of a name prevails. -/
theorem unique (h : s.Prevails symbols) (h' : s'.Prevails symbols) (hname : s.name = s'.name) :
    s = s' := by
  induction symbols with
  | nil => exact absurd h.mem List.not_mem_nil
  | cons x rest ih =>
    rcases cons_iff.1 h with ⟨rfl, hlater⟩ | ⟨hx, hrest⟩ <;>
      rcases cons_iff.1 h' with ⟨rfl, hlater'⟩ | ⟨hx', hrest'⟩
    · rfl
    · have hb := hx' hname
      rw [hlater s' hrest'.mem hname.symm] at hb
      cases hb
    · have hb := hx hname.symm
      rw [hlater' s hrest.mem hname] at hb
      cases hb
    · exact ih hrest hrest'

/-- Symbols that prevail under one name in two orders of the same symbols are equally strong. -/
theorem strength_eq (hperm : xs.Perm ys) (h : s.Prevails xs) (h' : s'.Prevails ys)
    (hname : s.name = s'.name) : s.strength = s'.strength := by
  have hs := h.not_below (hperm.mem_iff.2 h'.mem) hname.symm
  have hs' := h'.not_below (hperm.mem_iff.1 h.mem) hname
  rcases Strength.eq_or_below_of_not_below hs with heq | hb
  · exact heq
  · rw [hs'] at hb
    cases hb

end Symbol.Prevails

namespace SymbolTable
variable {seen later : List Symbol} {a b c t r : SymbolTable} {tables : List SymbolTable}

private theorem eraseDups_append_eraseDups {α : Type} [BEq α] [LawfulBEq α] (xs ys : List α) :
    (xs ++ ys.eraseDups).eraseDups = (xs ++ ys).eraseDups := by
  have hdrop (l : List α) : (ys.eraseDups.removeAll l).eraseDups = (ys.removeAll l).eraseDups := by
    induction ys using List.reverseRecOn with
    | nil => rfl
    | append_singleton ys y ih =>
      have hremove (zs : List α) :
          (zs ++ [y]).removeAll l = zs.removeAll l ++ [y].removeAll l := List.filter_append ..
      rw [hremove, List.eraseDups_append, List.eraseDups_append, ← ih]
      by_cases hy : y ∈ ys <;> by_cases hl : y ∈ l <;>
        simp [List.removeAll, List.eraseDups_cons, hy, hl, List.filter_append, List.eraseDups_append]
  rw [List.eraseDups_append, List.eraseDups_append, hdrop]

private theorem eraseDups_of_nodup {α : Type} [BEq α] [LawfulBEq α] {xs : List α}
    (h : xs.Nodup) : xs.eraseDups = xs := by
  induction xs with
  | nil => rfl
  | cons x rest ih =>
    obtain ⟨hx, hrest⟩ := List.nodup_cons.1 h
    have hfilter : rest.filter (fun y => !y == x) = rest :=
      List.filter_eq_self.2 fun y hy => by simpa using fun he : y = x => hx (he ▸ hy)
    rw [List.eraseDups_cons, hfilter, ih hrest]

namespace Resolved

/-- Every table comes from its own symbols. -/
theorem ofTable (t : SymbolTable) : Resolved t.symbols t := by
  have halone {s e : Symbol} {before after : List Symbol} (h : t.symbols = before ++ s :: after)
      (he : e ∈ before ∨ e ∈ after) : e.name ≠ s.name := by
    have hd := t.distinct
    rw [h, List.map_append, List.map_cons, List.nodup_middle, List.nodup_cons] at hd
    intro hname
    refine hd.1 (hname ▸ ?_)
    rw [← List.map_append]
    exact List.mem_map_of_mem (List.mem_append.2 he)
  refine ⟨?_, fun s hs => ?_, ?_⟩
  · exact (eraseDups_of_nodup t.distinct).symm
  · obtain ⟨before, after, hsplit⟩ := List.append_of_mem hs
    refine ⟨before, after, hsplit, fun e he hname => ?_, fun l hl hname => ?_⟩
    · exact absurd hname (halone hsplit (.inl he))
    · exact absurd hname (halone hsplit (.inr hl))
  · exact (List.pairwise_map.1 t.distinct).imp fun hne hr => hne hr.1

/-- What is kept of a list of symbols is settled by the list. -/
theorem unique (h : Resolved seen t) (h' : Resolved seen r) : t = r := by
  have hnames : t.symbols.map (·.name) = r.symbols.map (·.name) := h.names.trans h'.names.symm
  have hlength : t.symbols.length = r.symbols.length := by
    simpa using congrArg List.length hnames
  refine eq_of_symbols_eq (List.ext_getElem hlength fun i hi hi' => ?_)
  refine (h.prevails _ (List.getElem_mem hi)).unique (h'.prevails _ (List.getElem_mem hi')) ?_
  simpa [hi, hi'] using congrArg (·[i]?) hnames

theorem mem_iff (h : Resolved later t) {s : Symbol} : s ∈ t.symbols ↔ s.Prevails later := by
  refine ⟨h.prevails s, fun hs => ?_⟩
  obtain ⟨kept, hkept, hname⟩ := SymbolTable.mem_names.1 (h.mem_names.2 ⟨s, hs.mem, rfl⟩)
  exact (h.prevails kept hkept).unique hs hname ▸ hkept

theorem subset (h : Resolved later t) {s : Symbol} (hs : s ∈ t.symbols) : s ∈ later :=
  (h.prevails s hs).mem

/-- Each symbol met has one of its name in the table that is not below it. -/
theorem exists_not_below (h : Resolved later t) {s : Symbol} (hs : s ∈ later) :
    ∃ kept ∈ t.symbols, kept.name = s.name ∧ kept.strength.below s.strength = false := by
  obtain ⟨kept, hkept, hname⟩ := SymbolTable.mem_names.1 (h.mem_names.2 ⟨s, hs, rfl⟩)
  exact ⟨kept, hkept, hname, (h.prevails kept hkept).not_below hs hname.symm⟩

private theorem not_below_later_iff (h : Resolved later t) (s : Symbol) :
    (∀ y ∈ t.symbols, y.name = s.name → s.strength.below y.strength = false) ↔
      ∀ y ∈ later, y.name = s.name → s.strength.below y.strength = false := by
  refine ⟨fun hs y hy hname => Bool.of_not_eq_true fun hb => ?_, fun hs y hy => hs y (h.subset hy)⟩
  obtain ⟨kept, hkept, hkeptName, hky⟩ := h.exists_not_below hy
  have hsk := hs kept hkept (hkeptName.trans hname)
  rcases Symbol.Strength.eq_or_below_of_not_below hky with heq | hyk
  · rw [heq, hb] at hsk
    cases hsk
  · rw [Symbol.Strength.below_trans hb hyk] at hsk
    cases hsk

private theorem peaceful_append_iff (h : Resolved later t) :
    (seen ++ t.symbols).Pairwise (fun a b => ¬ a.Rivals b) ↔
      (seen ++ later).Pairwise (fun a b => ¬ a.Rivals b) := by
  simp only [List.pairwise_append]
  refine and_congr_right fun _ => ?_
  rw [iff_true_intro h.peaceful, iff_true_intro (ofTable t).peaceful, true_and, true_and]
  refine ⟨fun hs e he y hy hr => ?_, fun hs e he y hy => hs e he y (h.subset hy)⟩
  obtain ⟨kept, hkept, hname, hb⟩ := h.exists_not_below hy
  rw [hr.2.2] at hb
  exact hs e he kept hkept
    ⟨hr.1.trans hname.symm, hr.2.1, Symbol.Strength.strong_of_not_below hb⟩

/-- A run of symbols may be resolved by itself before it arrives. -/
theorem append_symbols_iff (h : Resolved later t) :
    Resolved (seen ++ t.symbols) r ↔ Resolved (seen ++ later) r := by
  have hnames : ((seen ++ t.symbols).map (·.name)).eraseDups =
      ((seen ++ later).map (·.name)).eraseDups := by
    have hlater : t.symbols.map (·.name) = (later.map (·.name)).eraseDups := h.names
    rw [List.map_append, List.map_append, hlater, eraseDups_append_eraseDups]
  have hprevails (s : Symbol) : s.Prevails (seen ++ t.symbols) ↔ s.Prevails (seen ++ later) := by
    rw [Symbol.Prevails.append_iff, Symbol.Prevails.append_iff, h.not_below_later_iff,
      ← (ofTable t).mem_iff, h.mem_iff]
  constructor
  · rintro ⟨hn, hp, hpeace⟩
    exact ⟨hn.trans hnames, fun s hs => (hprevails s).1 (hp s hs), h.peaceful_append_iff.1 hpeace⟩
  · rintro ⟨hn, hp, hpeace⟩
    exact ⟨hn.trans hnames.symm, fun s hs => (hprevails s).2 (hp s hs),
      h.peaceful_append_iff.2 hpeace⟩

end Resolved

/-- A merge succeeds with the one table that takes account of all symbols, if there is one. -/
theorem merge_eq_ok_iff (h : Resolved seen t) :
    (t.merge a).outcome = .ok r ↔ Resolved (seen ++ a.symbols) r := by
  rcases Merge.foldl_step_resolved (m := ⟨t, a, [], none⟩) h rfl a.symbols with
    ⟨hclash, hres⟩ | ⟨before, s, after, hsplit, -, old, hold, hr, hclash⟩
  · have hok : (t.merge a).outcome = .ok (t.merge a).target := by
      rw [Merge.outcome, merge, hclash]
    rw [hok]
    refine ⟨fun he => ?_, fun hr => congrArg _ (hres.unique hr)⟩
    cases he
    exact hres
  · have herror : (t.merge a).outcome = .error (.clash old.name old.package s.package) := by
      rw [Merge.outcome, merge, hclash]
      rfl
    rw [herror]
    simp only [reduceCtorEq, false_iff]
    intro hres
    refine absurd hr ?_
    have hpeace := hres.peaceful
    rw [hsplit, ← List.append_assoc] at hpeace
    exact (List.pairwise_append.1 hpeace).2.2 old hold s List.mem_cons_self

/-- Symbols without rivals among them can always be resolved. -/
theorem exists_resolved_iff :
    (∃ t, Resolved seen t) ↔ seen.Pairwise fun a b => ¬ a.Rivals b := by
  refine ⟨fun ⟨t, h⟩ => h.peaceful, fun hpeace => ?_⟩
  rcases Merge.foldl_step_resolved (m := ⟨∅, ∅, [], none⟩) .empty rfl seen with
    ⟨-, hres⟩ | ⟨before, s, after, rfl, -, old, hold, hr, -⟩
  · exact ⟨_, hres⟩
  · exact absurd hr ((List.pairwise_append.1 hpeace).2.2 old hold s List.mem_cons_self)

theorem linkFrom_eq_ok_iff (h : Resolved seen t) :
    linkFrom t tables = .ok r ↔ Resolved (seen ++ arrivals tables) r := by
  induction tables generalizing seen t with
  | nil =>
    rw [linkFrom, arrivals, List.flatMap_nil, List.append_nil]
    refine ⟨fun he => ?_, fun hr => congrArg _ (h.unique hr)⟩
    cases he
    exact h
  | cons a rest ih =>
    have harrive : seen ++ arrivals (a :: rest) = seen ++ a.symbols ++ arrivals rest := by
      rw [arrivals, List.flatMap_cons, List.append_assoc]
      rfl
    rw [linkFrom, Except.bind_eq_ok_iff, harrive]
    constructor
    · rintro ⟨u, hu, hrest⟩
      exact (ih ((merge_eq_ok_iff h).1 hu)).1 hrest
    · intro hr
      obtain ⟨u, hu⟩ := exists_resolved_iff.2 (List.pairwise_append.1 hr.peaceful).1
      exact ⟨u, (merge_eq_ok_iff h).2 hu, (ih hu).2 hr⟩

private theorem merge_left_eq_ok_iff :
    ((a.merge b).outcome >>= fun t => (t.merge c).outcome) = .ok r ↔
      Resolved (a.symbols ++ b.symbols ++ c.symbols) r := by
  rw [Except.bind_eq_ok_iff]
  constructor
  · rintro ⟨t, ht, hr⟩
    exact (merge_eq_ok_iff ((merge_eq_ok_iff (.ofTable a)).1 ht)).1 hr
  · intro hr
    obtain ⟨t, ht⟩ := exists_resolved_iff.2 (List.pairwise_append.1 hr.peaceful).1
    exact ⟨t, (merge_eq_ok_iff (.ofTable a)).2 ht, (merge_eq_ok_iff ht).2 hr⟩

private theorem merge_right_eq_ok_iff :
    ((b.merge c).outcome >>= fun t => (a.merge t).outcome) = .ok r ↔
      Resolved (a.symbols ++ b.symbols ++ c.symbols) r := by
  rw [Except.bind_eq_ok_iff, List.append_assoc]
  constructor
  · rintro ⟨t, ht, hr⟩
    exact ((merge_eq_ok_iff (.ofTable b)).1 ht).append_symbols_iff.1
      ((merge_eq_ok_iff (.ofTable a)).1 hr)
  · intro hr
    obtain ⟨t, ht⟩ := exists_resolved_iff.2 (List.pairwise_append.1 hr.peaceful).2.1
    exact ⟨t, (merge_eq_ok_iff (.ofTable b)).2 ht,
      (merge_eq_ok_iff (.ofTable a)).2 (ht.append_symbols_iff.2 hr)⟩

/-- Folding two tables and then a third is folding the first with the other two folded. -/
theorem merge_merge_eq :
    ((a.merge b).outcome >>= fun t => (t.merge c).outcome) = .ok r ↔
      ((b.merge c).outcome >>= fun t => (a.merge t).outcome) = .ok r :=
  merge_left_eq_ok_iff.trans merge_right_eq_ok_iff.symm

theorem arrivals_perm {others : List SymbolTable} (h : tables.Perm others) :
    (arrivals tables).Perm (arrivals others) := h.flatMap_right _

theorem exists_linkFrom_iff :
    (∃ r, linkFrom ∅ tables = .ok r) ↔ (arrivals tables).Pairwise fun a b => ¬ a.Rivals b := by
  simp only [linkFrom_eq_ok_iff Resolved.empty, List.nil_append, exists_resolved_iff]

/-- Neither grouping nor order decides whether tables can be folded. Grouping decides nothing about
the result either, and order only where its names stand and which of equally strong symbols stays. -/
theorem merge_grouping_and_order :
    (∀ a b c r : SymbolTable,
      ((a.merge b).outcome >>= fun t => (t.merge c).outcome) = .ok r ↔
        ((b.merge c).outcome >>= fun t => (a.merge t).outcome) = .ok r) ∧
    ∀ tables others : List SymbolTable, tables.Perm others →
      ((∃ r, linkFrom ∅ tables = .ok r) ↔ ∃ r, linkFrom ∅ others = .ok r) ∧
      ∀ r r', linkFrom ∅ tables = .ok r → linkFrom ∅ others = .ok r' →
        (∀ name, name ∈ r.names ↔ name ∈ r'.names) ∧
        ∀ s ∈ r.symbols, ∀ s' ∈ r'.symbols, s.name = s'.name → s.strength = s'.strength := by
  refine ⟨fun a b c r => merge_merge_eq, fun tables others hperm => ⟨?_, ?_⟩⟩
  · rw [exists_linkFrom_iff, exists_linkFrom_iff]
    exact (arrivals_perm hperm).pairwise_iff fun hab hba => hab ⟨hba.1.symm, hba.2.2, hba.2.1⟩
  · intro r r' hr hr'
    have hres := (linkFrom_eq_ok_iff .empty).1 hr
    have hres' := (linkFrom_eq_ok_iff .empty).1 hr'
    have harrivals := arrivals_perm hperm
    refine ⟨fun name => ?_, fun s hs s' hs' hname => ?_⟩
    · simp only [hres.mem_names, hres'.mem_names, List.nil_append, harrivals.mem_iff]
    · exact (hres.prevails s hs).strength_eq harrivals (hres'.prevails s' hs') hname

/-- A definition in a listed archive. -/
def definition (code name : String) (package : Text) : Symbol :=
  ⟨name, code, ".text", 4, 0, package, Symbol.archiveSuffix⟩

/-- Weak definitions of one name in two packages, and a strong one of another beside the second. -/
def weakTables : List SymbolTable :=
  [.ofList [definition " w    F" "f" "p"],
    .ofList [definition "g     F" "g" "q", definition " w    F" "f" "q"]]

theorem linkFrom_weakTables_swapped :
    weakTables.Perm weakTables.reverse ∧
      ∃ r r', linkFrom ∅ weakTables = .ok r ∧ linkFrom ∅ weakTables.reverse = .ok r' ∧
        r.names = ["f", "g"] ∧ r'.names = ["g", "f"] ∧
        (∀ name, name ∈ r.names ↔ name ∈ r'.names) ∧
        ∀ s ∈ r.symbols, ∀ s' ∈ r'.symbols, s.name = s'.name → s.strength = s'.strength := by
  have hperm : weakTables.Perm weakTables.reverse := (List.reverse_perm _).symm
  have hfolds : ∃ r r', linkFrom ∅ weakTables = .ok r ∧ linkFrom ∅ weakTables.reverse = .ok r' ∧
      r.names = ["f", "g"] ∧ r'.names = ["g", "f"] := ⟨_, _, rfl, rfl, by decide, by decide⟩
  obtain ⟨r, r', hr, hr', hnames, hnames'⟩ := hfolds
  exact ⟨hperm, r, r', hr, hr', hnames, hnames',
    (merge_grouping_and_order.2 weakTables weakTables.reverse hperm).2 r r' hr hr'⟩

end SymbolTable
end DualImage
