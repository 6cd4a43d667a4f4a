import DualImage.Proofs.Text.Pieces
import DualImage.Workspace.Disk

/-! Paths and their texts: the components of a path that was read are told apart again by the slashes
between them. -/
namespace DualImage.Path
variable {p q : Path}

/-- A component that a text could have been cut into. -/
def IsPart (t : Text) : Prop := t.codes ≠ [] ∧ t ≠ "." ∧ CodePoint.character '/' ∉ t.codes

instance : DecidablePred IsPart := fun _ => inferInstanceAs (Decidable (_ ∧ _ ∧ _))

/-- The path could have been read from a text. -/
def Plain (p : Path) : Prop := ∀ part ∈ p.parts, IsPart part

instance : DecidablePred Plain := fun p => inferInstanceAs (Decidable (∀ part ∈ p.parts, IsPart part))

private theorem notMem_of_mem_splitOn {α : Type} [BEq α] [LawfulBEq α] {a : α} {xs piece : List α}
    (h : piece ∈ xs.splitOn a) : a ∉ piece := by
  intro ha
  have hne : (a == a) = false := eq_false_of_mem_splitOnP (p := (· == a)) h ha
  simp at hne

theorem plain_ofText (t : Text) : (ofText t).Plain := by
  intro part hpart
  obtain ⟨hempty, hdot⟩ := part_ne_of_mem_ofText hpart
  refine ⟨hempty, fun h => hdot (congrArg Text.codes h), ?_⟩
  simp only [ofText, List.mem_filterMap] at hpart
  obtain ⟨codes, hcodes, hpart⟩ := hpart
  split at hpart
  · cases hpart
  · cases hpart
    exact notMem_of_mem_splitOn hcodes

theorem Plain.join (hp : p.Plain) (hq : q.Plain) : (p.join q).Plain := by
  unfold Path.join
  split
  · exact hq
  · intro part hpart
    exact (List.mem_append.1 hpart).elim (hp part) (hq part)

theorem Plain.child (hp : p.Plain) (name : Text) : (p.child name).Plain :=
  hp.join (plain_ofText name)

section
variable {codes : List CodePoint} (h : codes.head? ≠ some (.character '/'))
include h

private theorem ofCodes_relative : Anchor.ofCodes codes = .relative := by
  unfold Anchor.ofCodes
  split <;> simp_all

private theorem ofCodes_root : Anchor.ofCodes (.character '/' :: codes) = .root := by
  unfold Anchor.ofCodes
  split
  · rfl
  · simp_all
  · rfl
  · next hne => exact absurd rfl (hne codes)

private theorem ofCodes_doubleRoot :
    Anchor.ofCodes (.character '/' :: .character '/' :: codes) = .doubleRoot := by
  unfold Anchor.ofCodes
  split
  · simp_all
  · rfl
  · next hne heq =>
    simp only [List.cons.injEq, true_and] at heq
    exact absurd heq.symm (hne codes)
  · next hne => exact absurd rfl (hne _)

end

/-- The components that a text is cut into. -/
private def cut (codes : List CodePoint) : List Text :=
  (codes.splitOn (.character '/')).filterMap fun part =>
    if part = [] ∨ part = [.character '.'] then none else some ⟨part⟩

private theorem cut_cons (codes : List CodePoint) : cut (.character '/' :: codes) = cut codes := by
  rw [cut, List.splitOn_cons_eq_if_modifyHead, if_pos (beq_self_eq_true _), List.filterMap_cons]
  rfl

private theorem cut_intercalate (hp : p.Plain) :
    cut ((("/" : Text).codes).intercalate (p.parts.map Text.codes)) = p.parts := by
  have hsome : ∀ part ∈ p.parts, (if part.codes = [] ∨ part.codes = [.character '.'] then none
      else some (⟨part.codes⟩ : Text)) = some part := by
    intro part hpart
    obtain ⟨hempty, hdot, -⟩ := hp part hpart
    rw [if_neg]
    rintro (h | h)
    · exact hempty h
    · exact hdot (congrArg Text.mk h)
  by_cases hnil : p.parts = []
  · rw [hnil]
    rfl
  · have hslash : ("/" : Text).codes = [.character '/'] := rfl
    have hsplit : ([CodePoint.character '/'].intercalate (p.parts.map Text.codes)).splitOn
        (.character '/') = p.parts.map Text.codes := by
      refine List.splitOn_intercalate _ ?_ (by simpa using hnil)
      intro codes hcodes
      obtain ⟨part, hpart, rfl⟩ := List.mem_map.1 hcodes
      exact (hp part hpart).2.2
    rw [cut, hslash, hsplit, List.filterMap_map]
    exact (List.filterMap_congr hsome).trans (List.filterMap_some ..)

private theorem head_intercalate (hp : p.Plain) :
    ((("/" : Text).codes).intercalate (p.parts.map Text.codes)).head? ≠ some (.character '/') := by
  cases hparts : p.parts with
  | nil => simp [List.intercalate]
  | cons first rest =>
    obtain ⟨hempty, -, hslash⟩ := hp first (hparts ▸ List.mem_cons_self)
    obtain ⟨c, codes, hcodes⟩ := List.exists_cons_of_ne_nil hempty
    have hc : c ≠ .character '/' := by
      rintro rfl
      exact hslash (hcodes ▸ List.mem_cons_self)
    cases rest with
    | nil => simp [List.intercalate, hcodes, hc]
    | cons next rest => simp [List.intercalate, hcodes, hc]

/-- A path is the same when its text is read back. -/
theorem Plain.readBack (hp : p.Plain) : ofText p.toText = p := by
  have hcut := cut_intercalate hp
  have hhead := head_intercalate hp
  obtain ⟨anchor, parts⟩ := p
  by_cases hdot : anchor = .relative ∧ parts = []
  · obtain ⟨rfl, rfl⟩ := hdot
    rfl
  · rw [toText, if_neg hdot]
    cases anchor with
    | relative => exact congrArg₂ Path.mk (ofCodes_relative hhead) hcut
    | root => exact congrArg₂ Path.mk (ofCodes_root hhead) ((cut_cons _).trans hcut)
    | doubleRoot =>
      exact congrArg₂ Path.mk (ofCodes_doubleRoot hhead)
        ((cut_cons _).trans ((cut_cons _).trans hcut))

private theorem intercalate_concat (between last : List CodePoint) (parts : List (List CodePoint)) :
    ∃ tail, between.intercalate (parts ++ [last]) = between.intercalate parts ++ tail := by
  induction parts with
  | nil => exact ⟨last, by simp [List.intercalate]⟩
  | cons part rest ih =>
    cases rest with
    | nil => exact ⟨between ++ last, by simp [List.intercalate]⟩
    | cons next rest =>
      obtain ⟨tail, htail⟩ := ih
      refine ⟨tail, ?_⟩
      simp only [List.intercalate, List.cons_append, List.intersperse_cons_cons,
        List.flatten_cons, List.append_assoc] at htail ⊢
      rw [htail]

theorem parent_of_parts_eq_nil (h : p.parts = []) : p.parent = p := by
  obtain ⟨anchor, parts⟩ := p
  cases h
  rfl

/-- A path is written as the path above it and more, unless that one is written as a dot. -/
theorem toText_parent (p : Path) :
    p.parent.toText = "." ∨ ∃ tail, p.toText = p.parent.toText ++ tail := by
  rcases List.eq_nil_or_concat p.parts with hp | ⟨above, last, hp⟩
  · right
    refine ⟨⟨[]⟩, ?_⟩
    rw [parent_of_parts_eq_nil hp]
    exact congrArg Text.mk (List.append_nil _).symm
  · have hparent : p.parent = ⟨p.anchor, above⟩ := by
      rw [parent, hp, List.concat_eq_append, List.dropLast_concat]
    by_cases hdot : p.anchor = .relative ∧ above = []
    · left
      rw [hparent, toText, if_pos hdot]
    · right
      obtain ⟨tail, htail⟩ := intercalate_concat ("/" : Text).codes last.codes
        (above.map Text.codes)
      have htext : Text.intercalate "/" p.parts = Text.intercalate "/" above ++ ⟨tail⟩ := by
        rw [hp, List.concat_eq_append, Text.intercalate, List.map_append, List.map_singleton, htail]
        rfl
      refine ⟨⟨tail⟩, ?_⟩
      rw [hparent, toText, toText, if_neg hdot, if_neg (by simp [hp]), htext]
      exact congrArg Text.mk (List.append_assoc ..).symm

theorem ofText_of_isPart {t : Text} (h : IsPart t) : ofText t = ⟨.relative, [t]⟩ := by
  have hplain : Plain ⟨.relative, [t]⟩ := by
    intro part hpart
    rw [List.mem_singleton] at hpart
    rw [hpart]
    exact h
  have htext : toText ⟨.relative, [t]⟩ = t := by
    simp [toText, Text.intercalate, List.intercalate]
    rfl
  rw [← htext, hplain.readBack, htext]

theorem child_of_isPart {t : Text} (h : IsPart t) (p : Path) :
    p.child t = ⟨p.anchor, p.parts ++ [t]⟩ := by
  rw [child, ofText_of_isPart h, join_relative]

/-- A name with an ending is a component, and not two dots. -/
theorem isPart_append {t : Text} (ht : CodePoint.character '/' ∉ t.codes) {c : Char}
    (hc : c ≠ '.' ∧ c ≠ '/') :
    IsPart (t ++ .ofChars ['.', c]) ∧ t ++ .ofChars ['.', c] ≠ ".." := by
  have hcodes : (t ++ .ofChars ['.', c]).codes = t.codes ++ [.character '.'] ++ [.character c] := by
    simp [Text.ofChars]
  have hlast : (t ++ .ofChars ['.', c]).codes.getLast? = some (.character c) := by
    rw [hcodes, List.getLast?_concat]
  have hdot : ∀ s : Text, s.codes.getLast? = some (.character '.') → t ++ .ofChars ['.', c] ≠ s := by
    rintro s hs rfl
    rw [hlast] at hs
    cases hs
    exact hc.1 rfl
  refine ⟨⟨?_, hdot _ rfl, ?_⟩, hdot _ rfl⟩
  · rw [hcodes]
    simp
  · rw [hcodes]
    simp [ht, hc.2.symm]

/-- Where a component leads from a place, whatever is there. -/
def enter (place : Place) (part : Text) : Place :=
  if part = "." then place
  else if part = ".." then place.dropLast
  else place ++ [FileName.canonical part]

/-- Where a path starts. -/
def start (p : Path) (here : Place) : Place := if p.isAbsolute then [] else here

/-- Where a path leads. -/
def place (p : Path) (here : Place) : Place := p.parts.foldl enter (p.start here)

/-- The first path keeps clear of the second: neither a place on its way nor the directory around
such a place is where the second leads. -/
def Misses (p q : Path) : Prop :=
  ∀ here parts, parts <+: p.parts →
    parts.foldl enter (p.start here) ≠ q.place here ∧
      (parts.foldl enter (p.start here)).dropLast ≠ q.place here

namespace Misses

theorem place_ne (h : p.Misses q) (here : Place) :
    p.place here ≠ q.place here ∧ (p.place here).dropLast ≠ q.place here :=
  h here p.parts (List.prefix_refl _)

theorem parent (h : p.Misses q) : p.parent.Misses q :=
  fun here parts hparts => h here parts (hparts.trans (List.dropLast_prefix _))

/-- A way that goes on keeps clear when the place that it adds does. -/
theorem step {part : Text} (h : p.Misses q)
    (hstep : ∀ here, enter (p.place here) part ≠ q.place here ∧
      (enter (p.place here) part).dropLast ≠ q.place here) :
    Misses ⟨p.anchor, p.parts ++ [part]⟩ q := by
  intro here front hfront
  rcases List.prefix_concat_iff.1 hfront with rfl | hshort
  · rw [List.foldl_append]
    exact hstep here
  · exact h here front hshort

/-- One component more, neither a dot nor two: the place that it adds must not be the other one. -/
theorem concat {part : Text} (h : p.Misses q) (hpart : IsPart part) (hdots : part ≠ "..")
    (hne : ∀ here, p.place here ++ [FileName.canonical part] ≠ q.place here) :
    Misses ⟨p.anchor, p.parts ++ [part]⟩ q := by
  refine h.step fun here => ?_
  rw [enter, if_neg hpart.2.1, if_neg hdots, List.dropLast_concat]
  exact ⟨hne here, (h.place_ne here).1⟩

end Misses

theorem place_step (p : Path) (part : Text) (here : Place) :
    place ⟨p.anchor, p.parts ++ [part]⟩ here = enter (p.place here) part := by
  have hstart : start ⟨p.anchor, p.parts ++ [part]⟩ here = p.start here := rfl
  rw [place, hstart, List.foldl_append]
  rfl

theorem place_concat (p : Path) {part : Text} (hpart : IsPart part) (hdots : part ≠ "..")
    (here : Place) :
    place ⟨p.anchor, p.parts ++ [part]⟩ here = p.place here ++ [FileName.canonical part] := by
  rw [place_step, enter, if_neg hpart.2.1, if_neg hdots]

end DualImage.Path
