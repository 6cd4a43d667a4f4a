import DualImage.Proofs.SymbolTable.Linking
import DualImage.Proofs.Workspace.Answer

/-! What a merge does to its two tables. The source loses the locals that the target has as locals too,
the target keeps what the source does not name where it stands, and a clash leaves both as the symbols
before it have made them. -/
namespace DualImage.SymbolTable
variable {t s : SymbolTable} {x : Symbol}

/-- The table of the first symbols, as many as the number says. -/
def take (t : SymbolTable) (k : Nat) : SymbolTable :=
  ⟨t.symbols.take k, t.distinct.sublist ((List.take_sublist k _).map _)⟩

/-- The symbol is local, and so is the table's own of its name. -/
def hasLocal (t : SymbolTable) (s : Symbol) : Bool :=
  s.isLocal && (t.find? s.name).any (·.isLocal)

/-- A symbol stands where its name stands. -/
theorem getElem?_symbols_eq_some_iff {i : Nat} :
    t.symbols[i]? = some x ↔ t.names[i]? = some x.name ∧ t.find? x.name = some x := by
  constructor
  · intro hx
    exact ⟨by simp [names, hx], find?_name (List.mem_of_getElem? hx)⟩
  · rintro ⟨hname, hfind⟩
    rw [names, List.getElem?_map] at hname
    obtain ⟨y, hy, heq⟩ := Option.map_eq_some_iff.1 hname
    rw [hy, eq_of_name_eq (List.mem_of_getElem? hy) (mem_of_find? hfind) heq]

/-- No name comes twice among the symbols of a table. -/
private theorem name_notMem_front {before after : List Symbol}
    (h : s.symbols = before ++ x :: after) : x.name ∉ before.map (·.name) := by
  have hd := s.distinct
  rw [h, List.map_append, List.nodup_append] at hd
  exact fun hmem => hd.2.2 _ hmem x.name (by simp) rfl

/-- Whatever is added, the names that are there keep their places. -/
theorem names_prefix_add (t : SymbolTable) (s : Symbol) : t.names <+: (t.add s).names := by
  rw [names_add]
  split
  · exact List.prefix_rfl
  · exact List.prefix_append ..

/-- The table without those of its symbols under the given names that are local in both tables. -/
def leaveLocals (t s : SymbolTable) (names : List String) : SymbolTable :=
  s.filter fun y => !(decide (y.name ∈ names) && t.hasLocal y)

private theorem filter_congr {keep keep' : Symbol → Bool}
    (h : ∀ y ∈ s.symbols, keep y = keep' y) : s.filter keep = s.filter keep' :=
  eq_of_symbols_eq (List.filter_congr h)

private theorem filter_filter (keep keep' : Symbol → Bool) :
    (s.filter keep).filter keep' = s.filter fun y => keep' y && keep y :=
  eq_of_symbols_eq List.filter_filter

/-- One name more costs the table at most the symbol of that name. -/
private theorem leaveLocals_concat (hx : x ∈ s.symbols) (names : List String) :
    leaveLocals t s (names ++ [x.name]) =
      if t.hasLocal x then (leaveLocals t s names).remove x.name else leaveLocals t s names := by
  have hsame {y : Symbol} (hy : y ∈ s.symbols) (hname : y.name = x.name) :
      t.hasLocal y = t.hasLocal x := by rw [eq_of_name_eq hy hx hname]
  split
  · next hlocal =>
    rw [leaveLocals, leaveLocals, remove, filter_filter]
    refine filter_congr fun y hy => ?_
    by_cases hname : y.name = x.name
    · simp [hname, hsame hy hname, hlocal]
    · simp [hname]
  · next hlocal =>
    refine filter_congr fun y hy => ?_
    by_cases hname : y.name = x.name
    · simp [hsame hy hname, hlocal]
    · simp [hname]

namespace Merge
variable {m n : Merge} {done rest : List Symbol}

/-- Only a local that meets a local goes from the source. -/
private theorem verdict_eq_drop_iff (p : SymbolPair) :
    p.verdict = .drop ↔ (p.second.isLocal && p.first.isLocal) = true := by
  unfold SymbolPair.verdict
  split_ifs <;> simp_all

/-- The symbols that have arrived are settled: of the source only locals among them are gone, and of
the target only their names were touched. -/
structure Settled (t s : SymbolTable) (done : List Symbol) (m : Merge) : Prop where
  clash : m.clash = none
  source : m.source = leaveLocals t s (done.map (·.name))
  names : t.names <+: m.target.names
  elsewhere (name : String) : name ∉ done.map (·.name) → m.target.find? name = t.find? name

/-- Both tables before the first symbol arrives. -/
def start (t s : SymbolTable) : Merge := ⟨t, s, [], none⟩

theorem settled_start (t s : SymbolTable) : Settled t s [] (start t s) where
  clash := rfl
  source := eq_of_symbols_eq (by simp [start, leaveLocals, filter])
  names := List.prefix_rfl
  elsewhere _ _ := rfl

namespace Settled

/-- A symbol that is added changes the target under its own name alone. -/
private theorem add (h : Settled t s done m) (hx : x ∈ s.symbols) (hlocal : t.hasLocal x = false) :
    Settled t s (done ++ [x]) { m with target := m.target.add x } where
  clash := h.clash
  source := by simp [leaveLocals_concat hx, hlocal, h.source]
  names := h.names.trans (names_prefix_add ..)
  elsewhere name hname := by
    simp only [List.map_append, List.mem_append, not_or] at hname
    have hne : name ≠ x.name := by simpa using hname.2
    rw [find?_add, if_neg hne, h.elsewhere name hname.1]

private theorem keep (h : Settled t s done m) (hx : x ∈ s.symbols) (hlocal : t.hasLocal x = false) :
    Settled t s (done ++ [x]) m where
  clash := h.clash
  source := by simp [leaveLocals_concat hx, hlocal, h.source]
  names := h.names
  elsewhere name hname := by
    simp only [List.map_append, List.mem_append, not_or] at hname
    exact h.elsewhere name hname.1

private theorem drop (h : Settled t s done m) (hx : x ∈ s.symbols) (hlocal : t.hasLocal x = true)
    (dropped : List SymbolPair) :
    Settled t s (done ++ [x]) { m with source := m.source.remove x.name, dropped } where
  clash := h.clash
  source := by simp [leaveLocals_concat hx, hlocal, h.source]
  names := h.names
  elsewhere name hname := by
    simp only [List.map_append, List.mem_append, not_or] at hname
    exact h.elsewhere name hname.1

/-- The next symbol is settled as well, or it clashes with the target's own and nothing moves. -/
theorem step (h : Settled t s done m) (hsplit : s.symbols = done ++ x :: rest) :
    Settled t s (done ++ [x]) (m.step x) ∨
      ∃ old, t.find? x.name = some old ∧ m.step x = { m with clash := some ⟨old, x⟩ } := by
  have hx : x ∈ s.symbols := hsplit ▸ List.mem_append_right _ List.mem_cons_self
  have hfind := h.elsewhere x.name (name_notMem_front hsplit)
  have hlocal {old : Symbol} (hold : t.find? x.name = some old) :
      t.hasLocal x = (x.isLocal && old.isLocal) := by simp [hasLocal, hold]
  cases hold : t.find? x.name with
  | none =>
    have hstep : m.step x = { m with target := m.target.add x } := by
      simp [Merge.step, h.clash, hfind, hold]
    rw [hstep]
    exact .inl (h.add hx (by simp [hasLocal, hold]))
  | some old =>
    have hdrop := verdict_eq_drop_iff ⟨old, x⟩
    rw [← hlocal hold] at hdrop
    cases hv : SymbolPair.verdict ⟨old, x⟩ with
    | keep =>
      have hstep : m.step x = m := by simp [Merge.step, h.clash, hfind, hold, hv]
      rw [hstep]
      exact .inl (h.keep hx (by simpa [hv] using hdrop))
    | replace =>
      have hstep : m.step x = { m with target := m.target.add x } := by
        simp [Merge.step, h.clash, hfind, hold, hv]
      rw [hstep]
      exact .inl (h.add hx (by simpa [hv] using hdrop))
    | drop =>
      have hstep : m.step x = { m with
          source := m.source.remove x.name, dropped := m.dropped ++ [⟨old, x⟩] } := by
        simp [Merge.step, h.clash, hfind, hold, hv]
      rw [hstep]
      exact .inl (h.drop hx (hdrop.1 hv) _)
    | clash => exact .inr ⟨old, rfl, by simp [Merge.step, h.clash, hfind, hold, hv]⟩

/-- A run of symbols settles them all, or all up to the first that clashes. -/
theorem foldl_step {rest : List Symbol} (hsplit : s.symbols = done ++ rest) :
    Settled t s done (done.foldl Merge.step (start t s)) ∨
      ∃ before x after old, done = before ++ x :: after ∧ t.find? x.name = some old ∧
        Settled t s before (before.foldl Merge.step (start t s)) ∧
        done.foldl Merge.step (start t s) =
          { before.foldl Merge.step (start t s) with clash := some ⟨old, x⟩ } := by
  induction done using List.reverseRecOn generalizing rest with
  | nil => exact .inl (settled_start t s)
  | append_singleton done x ih =>
    rw [List.append_assoc, List.singleton_append] at hsplit
    rw [List.foldl_append, List.foldl_cons, List.foldl_nil]
    rcases ih hsplit with hdone | ⟨before, y, after, old, rfl, hold, hbefore, hclash⟩
    · rcases hdone.step hsplit with hnext | ⟨old, hold, hclash⟩
      · exact .inl hnext
      · exact .inr ⟨done, x, [], old, rfl, hold, hdone, hclash⟩
    · refine .inr ⟨before, y, after ++ [x], old, by simp, hold, hbefore, ?_⟩
      rw [hclash, step_of_clash rfl]

end Settled

/-- The source has no say in what becomes of the target. -/
private theorem step_congr (htarget : m.target = n.target) (hclash : m.clash = n.clash)
    (x : Symbol) : (m.step x).target = (n.step x).target ∧ (m.step x).clash = (n.step x).clash := by
  simp only [step, htarget, hclash]
  split
  · exact ⟨htarget, hclash⟩
  · split
    · exact ⟨rfl, rfl⟩
    · split
      · exact ⟨htarget, hclash⟩
      · exact ⟨rfl, rfl⟩
      · exact ⟨rfl, rfl⟩
      · exact ⟨rfl, rfl⟩

private theorem foldl_step_congr (htarget : m.target = n.target) (hclash : m.clash = n.clash)
    (symbols : List Symbol) :
    (symbols.foldl step m).target = (symbols.foldl step n).target ∧
      (symbols.foldl step m).clash = (symbols.foldl step n).clash := by
  induction symbols generalizing m n with
  | nil => exact ⟨htarget, hclash⟩
  | cons x rest ih =>
    obtain ⟨htarget', hclash'⟩ := step_congr htarget hclash x
    exact ih htarget' hclash'

end Merge
open Merge

/-- A merge that goes through takes from the source the locals that are local in the target too, and
leaves what the source does not name in the target as it was, in its place. One that ends in a clash
leaves the target as the source's symbols before the clash make it, with its own symbol of that name,
and has taken from the source the locals among them. -/
theorem merge_effects (t s : SymbolTable) (w : World) :
    match World.settle (t.merge s) w with
    | .ok r w' => Spoken w w' ∧ r = (t.merge s).target ∧
        (t.merge s).source = s.filter (!t.hasLocal ·) ∧
        ∀ (i : Nat) (x : Symbol), t.symbols[i]? = some x → x.name ∉ s.names →
          r.symbols[i]? = some x
    | .error f w' => Spoken w w' ∧ ∃ (k : Nat) (x old : Symbol),
        s.symbols[k]? = some x ∧ t.find? x.name = some old ∧
        f = .clash x.name old.package x.package ∧
        (∃ w'', World.settle (t.merge (s.take k)) w = .ok (t.merge s).target w'') ∧
        (t.merge s).target.find? x.name = some old ∧
        (t.merge s).source =
          s.filter fun y => !((s.take k).contains y.name && t.hasLocal y) := by
  have hrun := Settled.foldl_step (t := t) (List.append_nil s.symbols).symm
  have hmerge : t.merge s = s.symbols.foldl step (start t s) := rfl
  rw [← hmerge] at hrun
  obtain ⟨w', hspoken, hsettle⟩ := Answers.settle (t.merge s) (w := w)
  rcases hrun with hdone | ⟨before, x, after, old, hsplit, hold, hbefore, hclash⟩
  · rw [hsettle, hdone.clash]
    refine ⟨hspoken, rfl, hdone.source.trans ?_, fun i x hx hname => ?_⟩
    · refine filter_congr fun y hy => ?_
      have hmem : y.name ∈ s.symbols.map (·.name) := List.mem_map_of_mem hy
      simp [hmem]
    · obtain ⟨hplace, hfind⟩ := getElem?_symbols_eq_some_iff.1 hx
      refine getElem?_symbols_eq_some_iff.2 ⟨?_, (hdone.elsewhere _ hname).trans hfind⟩
      obtain ⟨more, hmore⟩ := hdone.names
      rw [← hmore, List.getElem?_append_left (List.getElem?_eq_some_iff.1 hplace).1, hplace]
  · rw [hsettle, hclash]
    have hfront : (s.take before.length).symbols = before := by simp [take, hsplit]
    have hfind := (hbefore.elsewhere _ (name_notMem_front hsplit)).trans hold
    refine ⟨hspoken, before.length, x, old, by simp [hsplit], hold, ?_, ?_, hfind, ?_⟩
    · rw [SymbolPair.name, name_of_find? hold]
    · obtain ⟨htarget, hpeace⟩ := foldl_step_congr (m := start t (s.take before.length))
        (n := start t s) rfl rfl before
      have hpart : t.merge (s.take before.length) =
          before.foldl step (start t (s.take before.length)) := by rw [merge, hfront, start]
      obtain ⟨w'', -, hpartSettle⟩ := Answers.settle (t.merge (s.take before.length)) (w := w)
      rw [hpart, hpeace, hbefore.clash, htarget] at hpartSettle
      exact ⟨w'', hpart ▸ hpartSettle⟩
    · refine hbefore.source.trans (filter_congr fun y _ => ?_)
      have hcontains : (s.take before.length).contains y.name =
          decide (y.name ∈ before.map (·.name)) := by
        rw [Bool.eq_iff_iff, contains_iff, names, hfront, decide_eq_true_iff]
      rw [hcontains]

namespace Merge
variable {m : Merge}

/-- The same with one table in both roles. -/
private def joined (m : Merge) : Merge := { m with target := m.source }

/-- A symbol that meets itself never replaces itself, so it changes the source at most. -/
private theorem step_joined (htarget : m.target.find? x.name = some x)
    (hsource : m.source.find? x.name = some x) :
    (m.step x).target = m.target ∧
      ((m.step x).source = m.source ∨ (m.step x).source = m.source.remove x.name) ∧
      joined (m.joined.step x) = joined (m.step x) := by
  have hstays : SymbolPair.verdict ⟨x, x⟩ ≠ .replace := by
    rw [Ne, SymbolPair.verdict_eq_replace_iff, Symbol.Strength.below_irrefl]
    simp
  simp only [joined, step, htarget, hsource]
  split
  · exact ⟨rfl, .inl rfl, rfl⟩
  · cases hverdict : SymbolPair.verdict ⟨x, x⟩ with
    | keep => exact ⟨rfl, .inl rfl, rfl⟩
    | replace => exact absurd hverdict hstays
    | drop => exact ⟨rfl, .inr rfl, rfl⟩
    | clash => exact ⟨rfl, .inl rfl, rfl⟩

private theorem foldl_step_joined {symbols : List Symbol} (hdistinct : (symbols.map (·.name)).Nodup)
    (htarget : ∀ x ∈ symbols, m.target.find? x.name = some x)
    (hsource : ∀ x ∈ symbols, m.source.find? x.name = some x) :
    symbols.foldl (fun m s => joined (m.step s)) m.joined = joined (symbols.foldl step m) := by
  induction symbols generalizing m with
  | nil => rfl
  | cons x rest ih =>
    rw [List.map_cons, List.nodup_cons] at hdistinct
    rw [List.forall_mem_cons] at htarget hsource
    obtain ⟨hstays, hleft, hstep⟩ := step_joined htarget.1 hsource.1
    rw [List.foldl_cons, List.foldl_cons, hstep]
    refine ih hdistinct.2 (hstays ▸ htarget.2) fun y hy => ?_
    have hne : y.name ≠ x.name := fun h => hdistinct.1 (h ▸ List.mem_map_of_mem hy)
    rcases hleft with hleft | hleft
    · rw [hleft, hsource.2 y hy]
    · rw [hleft, find?_remove, if_neg hne, hsource.2 y hy]

end Merge

/-- A table that is folded into itself ends as the source of a merge with its like. -/
theorem mergeSelf_eq (t : SymbolTable) :
    t.mergeSelf = { t.merge t with target := (t.merge t).source } :=
  foldl_step_joined (m := ⟨t, t, [], none⟩) t.distinct (fun _ => find?_name) fun _ => find?_name

end DualImage.SymbolTable
