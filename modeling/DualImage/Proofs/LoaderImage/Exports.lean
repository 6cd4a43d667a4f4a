import DualImage.Proofs.SymbolTable.Comparison
import DualImage.Proofs.Workspace.Answer

/-! Which symbols the loader image exports, and when there are none because the halves disagree. -/
namespace DualImage.LoaderImage
open SymbolTable (agreement)

variable {loader application linked retained : SymbolTable} {s : Symbol} {name : String}

theorem find?_withoutRoots (t : SymbolTable) (name : String) :
    (withoutRoots t).find? name = if name ∈ rootSymbols then none else t.find? name :=
  SymbolTable.find?_foldl_remove ..

theorem name_boundarySymbol (linked : SymbolTable) (name : String) :
    (boundarySymbol linked name).name = name := by
  unfold boundarySymbol
  cases h : linked.find? name with
  | none => rfl
  | some s => exact SymbolTable.name_of_find? h

/-- Boundary symbols come last, so they stand whatever was there under their names. -/
theorem find?_exportsOf (retained linked : SymbolTable) (name : String) :
    (exportsOf retained linked).find? name =
      if name ∈ boundarySymbols then some (boundarySymbol linked name)
      else retained.find? name := by
  unfold exportsOf
  induction boundarySymbols generalizing retained with
  | nil => simp
  | cons n rest ih =>
    rw [List.foldl_cons, ih, SymbolTable.find?_add, name_boundarySymbol]
    by_cases hr : name ∈ rest <;> by_cases hn : name = n <;> simp [hr, hn]

/-- What is exported when nothing is in conflict. -/
def exportTable (loader application linked : SymbolTable) : SymbolTable :=
  exportsOf (agreement false (withoutRoots (agreement true loader application)) linked) linked

theorem answers_exports (loader application linked : SymbolTable) (w : World) :
    Answers Spoken (exports loader application linked)
      (if (loader.compare true application).conflicts = [] then
        .ok (exportTable loader application linked)
      else .error (.conflicts (loader.compare true application).conflicts)) w := by
  refine (Answers.compare ..).andThen fun w _ => ?_
  have hrefuse := Answers.refuseConflicts (w := w) (loader.compare true application).conflicts
  split
  · next hnone =>
    simp only [if_pos hnone] at hrefuse
    refine hrefuse.andThen fun _ _ => ?_
    refine (Answers.say ..).andThen fun _ _ => ?_
    refine (Answers.compare ..).andThen fun _ _ => ?_
    exact (Answers.sayAll ..).andThen fun _ _ => .pure _
  · next hsome =>
    simp only [if_neg hsome] at hrefuse
    exact hrefuse.failing

theorem conflicts_of_eq_ok {exported : SymbolTable} {w w' : World}
    (h : exports loader application linked w = .ok exported w') :
    (loader.compare true application).conflicts = [] := by
  have hanswer := ((answers_exports loader application linked w).of_ok h).1
  by_contra hne
  rw [if_neg hne] at hanswer
  cases hanswer

theorem eq_exportTable_of_eq_ok {exported : SymbolTable} {w w' : World}
    (h : exports loader application linked w = .ok exported w') :
    exported = exportTable loader application linked := by
  have hanswer := ((answers_exports loader application linked w).of_ok h).1
  rw [if_pos (conflicts_of_eq_ok h)] at hanswer
  exact (Except.ok.inj hanswer).symm

/-- Global data of one name on which loader and application disagree. -/
structure Disputed (loader application : SymbolTable) (p : SymbolPair) : Prop where
  ofLoader : loader.find? p.name = some p.first
  ofApplication : application.find? p.name = some p.second
  globalData : p.first.isGlobalData = true ∧ p.second.isGlobalData = true
  differs : p.first.flags ≠ p.second.flags ∨ p.first.size ≠ p.second.size ∨
    p.first.package ≠ p.second.package

/-- A name outside the loader's start for which both halves hold the same symbol of one package,
and which the link of the loader left as it was. -/
structure Retained (loader application linked : SymbolTable) (name : String) : Prop where
  notRoot : name ∉ rootSymbols
  agreed : ∃ s other link, loader.find? name = some s ∧ application.find? name = some other ∧
    linked.find? name = some link ∧
    (s.flags = other.flags ∧ s.size = other.size ∧ s.package = other.package) ∧
    s.flags = link.flags ∧ s.size = link.size

private theorem mem_conflicts_iff {p : SymbolPair} :
    p ∈ (loader.compare true application).conflicts ↔ Disputed loader application p := by
  rw [SymbolTable.mem_compare_conflicts, SymbolTable.mem_pairs_iff_find?, SymbolPair.isGlobalData,
    Bool.and_eq_true]
  have hagrees : p.agrees true = false ↔ p.first.flags ≠ p.second.flags ∨
      p.first.size ≠ p.second.size ∨ p.first.package ≠ p.second.package := by
    simp only [SymbolPair.agrees, Bool.not_true, Bool.false_or, Bool.and_eq_false_iff,
      beq_eq_false_iff_ne]
    tauto
  constructor
  · rintro ⟨⟨hl, ha⟩, hd, hg⟩
    exact ⟨hl, ha, hg, hagrees.1 hd⟩
  · intro h
    exact ⟨⟨h.ofLoader, h.ofApplication⟩, hagrees.2 h.differs, h.globalData⟩

private theorem find?_retained :
    (agreement false (withoutRoots (agreement true loader application)) linked).find? name = some s ↔
      loader.find? name = some s ∧ Retained loader application linked name := by
  rw [SymbolTable.find?_agreement, find?_withoutRoots]
  constructor
  · rintro ⟨hs, link, hlink, hkept⟩
    split at hs
    · cases hs
    · next hroot =>
      obtain ⟨hs, other, hother, hsame⟩ := SymbolTable.find?_agreement.1 hs
      simp only [SymbolPair.agrees, Bool.not_true, Bool.not_false, Bool.false_or, Bool.true_or,
        Bool.true_and, Bool.and_eq_true, beq_iff_eq] at hsame hkept
      obtain ⟨⟨hpackage, hflags⟩, hsize⟩ := hsame
      exact ⟨hs, hroot, s, other, link, hs, hother, hlink, ⟨hflags, hsize, hpackage⟩, hkept⟩
  · rintro ⟨hs, hroot, s', other, link, hs', hother, hlink, ⟨hflags, hsize, hpackage⟩, hkept⟩
    obtain rfl := Option.some.inj (hs.symm.trans hs')
    rw [if_neg hroot]
    refine ⟨SymbolTable.find?_agreement.2 ⟨hs, other, hother, ?_⟩, link, hlink, ?_⟩
    · simp [SymbolPair.agrees, hflags, hsize, hpackage]
    · simp [SymbolPair.agrees, hkept]

/-- The record of an exported name: that of the linked loader, or a placeholder, for a boundary
symbol, and the loader's own for any other. -/
theorem find?_exportTable :
    (exportTable loader application linked).find? name = some s ↔
      if name ∈ boundarySymbols then s = (linked.find? name).getD (absolute name)
      else loader.find? name = some s ∧ Retained loader application linked name := by
  rw [exportTable, find?_exportsOf]
  split
  · rw [Option.some.injEq]
    exact eq_comm
  · exact find?_retained

theorem mem_names_exportTable :
    name ∈ (exportTable loader application linked).names ↔
      name ∈ boundarySymbols ∨ Retained loader application linked name := by
  rw [SymbolTable.mem_names_iff_find?]
  simp only [find?_exportTable]
  split
  · next hb => simp [hb]
  · next hb =>
    simp only [hb, false_or]
    constructor
    · rintro ⟨s, -, h⟩
      exact h
    · intro h
      obtain ⟨s, _, _, hs, -⟩ := h.agreed
      exact ⟨s, hs, h⟩

/-- Exporting fails exactly on disputed global data, and then it names every dispute once, in the
order of the names. Otherwise it exports the retained and the boundary symbols. The tables are
values, so the three given ones stay what they were, and of the world only the console changes. -/
theorem exports_outcome (loader application linked : SymbolTable) (w : World) :
    match exports loader application linked w with
    | .error failure w' =>
      (∃ p, Disputed loader application p) ∧
      (∃ pairs, failure = .conflicts pairs ∧ (pairs.map SymbolPair.name).Pairwise (· < ·) ∧
        ∀ p, p ∈ pairs ↔ Disputed loader application p) ∧
      Spoken w w'
    | .ok exported w' =>
      (¬ ∃ p, Disputed loader application p) ∧
      (∀ name, name ∈ exported.names ↔
        name ∈ boundarySymbols ∨ Retained loader application linked name) ∧
      (∀ name ∈ exported.names, exported.find? name =
        if name ∈ boundarySymbols then some ((linked.find? name).getD (absolute name))
        else loader.find? name) ∧
      Spoken w w' := by
  obtain ⟨w', hw, h⟩ := answers_exports loader application linked w
  rw [h]
  split at h
  · next hnone =>
    rw [if_pos hnone]
    refine ⟨?_, fun name => mem_names_exportTable, ?_, hw⟩
    · rintro ⟨p, hp⟩
      rw [← mem_conflicts_iff, hnone] at hp
      cases hp
    · intro name hname
      obtain ⟨s, hs⟩ := SymbolTable.mem_names_iff_find?.1 hname
      have hrecord := find?_exportTable.1 hs
      rw [hs]
      split at hrecord
      · next hb => rw [if_pos hb, hrecord]
      · next hb => rw [if_neg hb, hrecord.1]
  · next hsome =>
    rw [if_neg hsome]
    obtain ⟨p, hp⟩ := List.exists_mem_of_ne_nil _ hsome
    exact ⟨⟨p, mem_conflicts_iff.1 hp⟩, ⟨_, rfl,
      SymbolTable.names_compare_conflicts_pairwise .., fun p => mem_conflicts_iff⟩, hw⟩

end DualImage.LoaderImage
