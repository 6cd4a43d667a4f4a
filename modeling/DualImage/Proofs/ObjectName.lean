import DualImage.ObjectName
import DualImage.Proofs.Text.Breaks
import Mathlib.Data.List.Nodup

/-! Names of objects. Slashes of a source become underscores, and the underscores that it has already
look the same: two sources have one object exactly if they agree once they are cut at both. -/
namespace DualImage
open DualImage.Path (IsPart)
variable {sources objects : List Path} {source object objectDir : Path} {parts parts' : List Text}
  {name name' : Text}

/-- The components of a source below the directory that all sources share. -/
def below? (sources : List Path) (source : Path) : Option (List Text) := do
  source.relativeTo? (← commonDirectory? (sources.map Path.parent))

/-- What components are cut into at their underscores. The suffix of the last one does not count. -/
def objectPieces (parts : List Text) : List (List CodePoint) :=
  (parts.dropLast ++ [(Path.splitSuffix (parts.getLast?.getD ⟨[]⟩)).1]).flatMap
    (·.codes.splitOn (.character '_'))

private theorem mem_of_mem_stem {c : CodePoint} (h : c ∈ (Path.splitSuffix name).1.codes) :
    c ∈ name.codes := by
  unfold Path.splitSuffix at h
  dsimp only at h
  split at h
  · next dot x before hdrop =>
    split at h
    · exact h
    · have hmem : c ∈ dot :: x :: before := List.mem_cons_of_mem _ (List.mem_reverse.1 h)
      rw [← hdrop] at hmem
      exact List.mem_reverse.1 ((List.dropWhile_sublist _).mem hmem)
  · exact h

private theorem splitOn_intercalate {ts : List Text} (h : ts ≠ []) :
    (Text.intercalate "_" ts).codes.splitOn (.character '_') =
      ts.flatMap (·.codes.splitOn (.character '_')) := by
  induction ts with
  | nil => exact absurd rfl h
  | cons first rest ih =>
    cases rest with
    | nil => simp [Text.intercalate, List.intercalate]
    | cons next rest =>
      have hcons : (Text.intercalate "_" (first :: next :: rest)).codes =
          first.codes ++ .character '_' :: (Text.intercalate "_" (next :: rest)).codes :=
        List.intercalate_cons_cons.trans (List.append_assoc ..)
      rw [List.flatMap_cons, ← ih (List.cons_ne_nil _ _), hcons]
      exact List.splitOnP_append_cons _ _ (beq_self_eq_true _)

/-- Before its ending, a name is its pieces with underscores between them. But for the underscores it
has nothing that the components have not. -/
private theorem exists_stem_of_objectName (h : objectName? parts = some name) :
    ∃ stem : Text, name = stem ++ .ofChars ['.', 'o'] ∧
      objectPieces parts = stem.codes.splitOn (.character '_') ∧
      ∀ c ∈ stem.codes, c ≠ .character '_' → ∃ part ∈ parts, c ∈ part.codes := by
  obtain ⟨last, hlast, rfl⟩ := Option.map_eq_some_iff.1 h
  refine ⟨_, rfl, ?_, fun c hc hunderscore => ?_⟩
  · rw [objectPieces, hlast, Option.getD_some, splitOn_intercalate (by simp)]
  · have hbetween : c ∉ ("_" : Text).codes := fun hmem => hunderscore (List.mem_singleton.1 hmem)
    obtain ⟨part, hpart, hc⟩ := (Text.mem_intercalate_iff hbetween).1 hc
    rcases List.mem_append.1 hpart with hpart | hpart
    · exact ⟨part, List.dropLast_subset _ hpart, hc⟩
    · rw [List.mem_singleton.1 hpart] at hc
      exact ⟨last, List.mem_of_getLast? hlast, mem_of_mem_stem hc⟩

/-- Names are told apart by their pieces. -/
theorem objectName_eq_iff (h : objectName? parts = some name) (h' : objectName? parts' = some name') :
    name = name' ↔ objectPieces parts = objectPieces parts' := by
  obtain ⟨stem, rfl, hpieces, -⟩ := exists_stem_of_objectName h
  obtain ⟨stem', rfl, hpieces', -⟩ := exists_stem_of_objectName h'
  rw [hpieces, hpieces']
  constructor
  · intro heq
    rw [List.append_cancel_right (congrArg Text.codes heq)]
  · intro heq
    have hcodes := congrArg [CodePoint.character '_'].intercalate heq
    rw [List.intercalate_splitOn, List.intercalate_splitOn] at hcodes
    exact congrArg (fun t : Text => t ++ .ofChars ['.', 'o']) (congrArg Text.mk hcodes)

/-- The name of an object is one component. -/
theorem isPart_objectName (hparts : ∀ part ∈ parts, IsPart part) (h : objectName? parts = some name) :
    ∃ stem : Text, IsPart (stem ++ .ofChars ['.', 'o']) ∧ stem ++ .ofChars ['.', 'o'] ≠ ".." ∧
      name = stem ++ .ofChars ['.', 'o'] := by
  obtain ⟨stem, rfl, -, hstem⟩ := exists_stem_of_objectName h
  have hslash : CodePoint.character '/' ∉ stem.codes := by
    intro hmem
    obtain ⟨part, hpart, hc⟩ := hstem _ hmem (by decide)
    exact (hparts part hpart).2.2 hc
  obtain ⟨hpart, hdots⟩ := Path.isPart_append hslash (c := 'o') (by decide)
  exact ⟨stem, hpart, hdots, rfl⟩

theorem Text.exists_string {t : Text} (h : ∀ c ∈ t.codes, ∃ x, c = .character x) :
    ∃ s : String, t = s := by
  suffices hchars : ∃ cs : List Char, t.codes = cs.map .character by
    obtain ⟨cs, hcs⟩ := hchars
    refine ⟨String.ofList cs, ?_⟩
    rw [Text.ofString, String.toList_ofList]
    exact congrArg Text.mk hcs
  obtain ⟨codes⟩ := t
  induction codes with
  | nil => exact ⟨[], rfl⟩
  | cons c codes ih =>
    obtain ⟨⟨x, rfl⟩, hcodes⟩ := List.forall_mem_cons.1 h
    obtain ⟨cs, hcs⟩ := ih hcodes
    exact ⟨x :: cs, congrArg (CodePoint.character x :: ·) hcs⟩

private theorem exists_string_of_objectName (hparts : ∀ part ∈ parts, ∃ t : String, part = t)
    (h : objectName? parts = some name) : ∃ t : String, name = t := by
  obtain ⟨stem, rfl, -, hstem⟩ := exists_stem_of_objectName h
  refine Text.exists_string fun c hc => ?_
  rcases List.mem_append.1 hc with hc | hc
  · by_cases hunderscore : c = .character '_'
    · exact ⟨_, hunderscore⟩
    · obtain ⟨part, hpart, hmem⟩ := hstem c hc hunderscore
      obtain ⟨t, rfl⟩ := hparts part hpart
      obtain ⟨x, -, hx⟩ := List.mem_map.1 hmem
      exact ⟨x, hx.symm⟩
  · obtain ⟨x, -, hx⟩ := List.mem_map.1 hc
    exact ⟨x, hx.symm⟩

theorem subset_of_below? (h : below? sources source = some parts) : parts ⊆ source.parts := by
  obtain ⟨common, -, h⟩ := Option.bind_eq_some_iff.1 h
  unfold Path.relativeTo? at h
  split at h
  · cases h
    exact List.drop_subset _ _
  · cases h

private theorem eq_map_of_mapM {α β : Type} {f : α → Option β} {g : α → β} {xs : List α} {ys : List β}
    (hg : ∀ x y, f x = some y → g x = y) (h : xs.mapM f = some ys) :
    ys = xs.map g ∧ ∀ x ∈ xs, f x = some (g x) := by
  induction xs generalizing ys with
  | nil =>
    cases h
    exact ⟨rfl, List.forall_mem_nil _⟩
  | cons x xs ih =>
    rw [List.mapM_cons] at h
    obtain ⟨first, hfirst, h⟩ := Option.bind_eq_some_iff.1 h
    obtain ⟨rest, hrest, h⟩ := Option.bind_eq_some_iff.1 h
    cases h
    obtain ⟨rfl, hxs⟩ := ih hrest
    obtain rfl := hg x first hfirst
    exact ⟨rfl, List.forall_mem_cons.2 ⟨hfirst, hxs⟩⟩

/-- Each source has its object, named by the components that belong to the source alone. -/
theorem exists_names_of_objectPaths (h : objectPaths? sources objectDir = some objects) :
    ∃ nameOf : Path → Text, objects = sources.map (fun s => objectDir.child (nameOf s)) ∧
      ∀ s ∈ sources, ∃ parts, below? sources s = some parts ∧
        objectName? parts = some (nameOf s) := by
  unfold objectPaths? at h
  split at h
  · next hempty =>
    obtain rfl := List.isEmpty_iff.1 hempty
    cases h
    exact ⟨fun _ => default, rfl, List.forall_mem_nil _⟩
  · obtain ⟨common, hcommon, h⟩ := Option.bind_eq_some_iff.1 h
    have hbelow (s : Path) : below? sources s = s.relativeTo? common := by
      rw [below?, hcommon]
      rfl
    let nameOf (s : Path) : Text := ((below? sources s).bind objectName?).getD default
    have hname {s : Path} {parts : List Text} {name : Text} (hparts : s.relativeTo? common = some parts)
        (hname : objectName? parts = some name) : nameOf s = name := by
      simp only [nameOf, hbelow, hparts, Option.bind_some, hname, Option.getD_some]
    have hobject (s o : Path) (ho : (do
        let name ← objectName? (← s.relativeTo? common)
        return objectDir.child name) = some o) : objectDir.child (nameOf s) = o := by
      obtain ⟨parts, hparts, ho⟩ := Option.bind_eq_some_iff.1 ho
      obtain ⟨name, hfound, ho⟩ := Option.bind_eq_some_iff.1 ho
      cases ho
      rw [hname hparts hfound]
    obtain ⟨rfl, hall⟩ := eq_map_of_mapM hobject h
    refine ⟨nameOf, rfl, fun s hs => ?_⟩
    obtain ⟨parts, hparts, ho⟩ := Option.bind_eq_some_iff.1 (hall s hs)
    obtain ⟨name, hfound, -⟩ := Option.bind_eq_some_iff.1 ho
    exact ⟨parts, (hbelow s).trans hparts, hfound.trans (congrArg some (hname hparts hfound).symm)⟩

theorem length_of_objectPaths (h : objectPaths? sources objectDir = some objects) :
    objects.length = sources.length := by
  obtain ⟨nameOf, rfl, -⟩ := exists_names_of_objectPaths h
  exact List.length_map _

theorem objectPaths?_eq_nil_iff (h : objectPaths? sources objectDir = some objects) :
    objects = [] ↔ sources = [] := by
  rw [← List.length_eq_zero_iff, length_of_objectPaths h, List.length_eq_zero_iff]

/-- Every object has a source. -/
theorem exists_source_of_objectPaths (hobjects : objectPaths? sources objectDir = some objects)
    (ho : object ∈ objects) : ∃ source, (source, object) ∈ sources.zip objects := by
  obtain ⟨nameOf, rfl, -⟩ := exists_names_of_objectPaths hobjects
  obtain ⟨source, hs, rfl⟩ := List.mem_map.1 ho
  refine ⟨source, ?_⟩
  rw [← List.map_prod_left_eq_zip]
  exact List.mem_map_of_mem hs

/-- A source has one object, wherever it stands. -/
theorem object_unique (hobjects : objectPaths? sources objectDir = some objects) {object' : Path}
    (h : (source, object) ∈ sources.zip objects) (h' : (source, object') ∈ sources.zip objects) :
    object = object' := by
  obtain ⟨nameOf, rfl, -⟩ := exists_names_of_objectPaths hobjects
  rw [← List.map_prod_left_eq_zip] at h h'
  obtain ⟨_, -, heq⟩ := List.mem_map.1 h
  obtain ⟨_, -, heq'⟩ := List.mem_map.1 h'
  cases heq
  cases heq'
  rfl

section
variable (hsources : ∀ s ∈ sources, s.Plain)
include hsources

/-- An object lies in the directory for objects, under a name of its own. -/
theorem exists_stem_of_objectPaths (hobjects : objectPaths? sources objectDir = some objects)
    (ho : object ∈ objects) : ∃ stem : Text, IsPart (stem ++ .ofChars ['.', 'o']) ∧
      stem ++ .ofChars ['.', 'o'] ≠ ".." ∧ object = objectDir.child (stem ++ .ofChars ['.', 'o']) := by
  obtain ⟨nameOf, rfl, hnames⟩ := exists_names_of_objectPaths hobjects
  obtain ⟨source, hs, rfl⟩ := List.mem_map.1 ho
  obtain ⟨parts, hbelow, hname⟩ := hnames source hs
  have hparts : ∀ part ∈ parts, IsPart part :=
    fun part hpart => hsources source hs part (subset_of_below? hbelow hpart)
  obtain ⟨stem, hpart, hdots, heq⟩ := isPart_objectName hparts hname
  exact ⟨stem, hpart, hdots, congrArg objectDir.child heq⟩

theorem parent_of_objectPaths (hobjects : objectPaths? sources objectDir = some objects)
    (ho : object ∈ objects) : object.parent = objectDir := by
  obtain ⟨stem, hpart, -, rfl⟩ := exists_stem_of_objectPaths hsources hobjects ho
  rw [Path.child_of_isPart hpart, Path.parent, List.dropLast_concat]

theorem exists_place_of_objectPaths (hobjects : objectPaths? sources objectDir = some objects)
    (ho : object ∈ objects) (here : Place) :
    ∃ name, object.place here = objectDir.place here ++ [name] := by
  obtain ⟨stem, hpart, hdots, rfl⟩ := exists_stem_of_objectPaths hsources hobjects ho
  rw [Path.child_of_isPart hpart]
  exact ⟨_, Path.place_concat objectDir hpart hdots here⟩

/-- The objects are different ones exactly if no two sources have the same pieces. -/
theorem nodup_objects_iff (hobjects : objectPaths? sources objectDir = some objects) :
    objects.Nodup ↔ sources.Pairwise fun a b =>
      (below? sources a).map objectPieces ≠ (below? sources b).map objectPieces := by
  obtain ⟨nameOf, rfl, hnames⟩ := exists_names_of_objectPaths hobjects
  rw [List.Nodup, List.pairwise_map]
  refine List.Pairwise.iff_of_mem fun {a b} ha hb => not_congr ?_
  obtain ⟨parts, hbelow, hname⟩ := hnames a ha
  obtain ⟨parts', hbelow', hname'⟩ := hnames b hb
  have hpart {s : Path} (hs : s ∈ sources) : IsPart (nameOf s) := by
    obtain ⟨parts, hbelow, hname⟩ := hnames s hs
    obtain ⟨stem, hpart, -, heq⟩ := isPart_objectName
      (fun part hpart => hsources s hs part (subset_of_below? hbelow hpart)) hname
    exact heq ▸ hpart
  rw [hbelow, hbelow', Option.map_some, Option.map_some, Option.some_inj,
    ← objectName_eq_iff hname hname', Path.child_of_isPart (hpart ha), Path.child_of_isPart (hpart hb)]
  simp

/-- Different objects lie in different places, if their sources are written without surrogates. -/
theorem nodup_places (hstrings : ∀ s ∈ sources, ∀ part ∈ s.parts, ∃ t : String, part = t)
    (hobjects : objectPaths? sources objectDir = some objects) (h : objects.Nodup) (here : Place) :
    (objects.map (·.place here)).Nodup := by
  have hstring : ∀ object ∈ objects, ∃ t : String, IsPart (t : Text) ∧ (t : Text) ≠ ".." ∧
      object = objectDir.child t := by
    obtain ⟨nameOf, rfl, hnames⟩ := exists_names_of_objectPaths hobjects
    intro object ho
    obtain ⟨source, hs, rfl⟩ := List.mem_map.1 ho
    obtain ⟨parts, hbelow, hname⟩ := hnames source hs
    have hsubset := subset_of_below? hbelow
    obtain ⟨stem, hpart, hdots, heq⟩ :=
      isPart_objectName (fun part hpart => hsources source hs part (hsubset hpart)) hname
    obtain ⟨t, ht⟩ := exists_string_of_objectName
      (fun part hpart => hstrings source hs part (hsubset hpart)) hname
    rw [← heq, ht] at hpart hdots
    exact ⟨t, hpart, hdots, congrArg objectDir.child ht⟩
  refine List.Nodup.map_on (fun a ha b hb hplace => ?_) h
  obtain ⟨t, hpart, hdots, rfl⟩ := hstring a ha
  obtain ⟨t', hpart', hdots', rfl⟩ := hstring b hb
  rw [Path.child_of_isPart hpart, Path.child_of_isPart hpart', Path.place_concat _ hpart hdots,
    Path.place_concat _ hpart' hdots', FileName.canonical_ofString, FileName.canonical_ofString]
    at hplace
  rw [List.singleton_inj.1 (List.append_cancel_left hplace)]

end
end DualImage
