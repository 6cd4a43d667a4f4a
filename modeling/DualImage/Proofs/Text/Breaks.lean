import DualImage.Proofs.Path
import DualImage.Workspace.Tools

/-! Texts without carriage returns, and the paths and commands that have such texts. A file that holds
such a text reads as it was written. -/
namespace DualImage

namespace Text
variable {c : CodePoint} {between t u : Text} {ts : List Text}

theorem mem_intercalate_iff (hc : c ∉ between.codes) :
    c ∈ (intercalate between ts).codes ↔ ∃ t ∈ ts, c ∈ t.codes := by
  induction ts with
  | nil => simp [intercalate]
  | cons first rest ih =>
    cases rest with
    | nil => simp [intercalate, List.intercalate]
    | cons next rest =>
      have hcons : (intercalate between (first :: next :: rest)).codes =
          first.codes ++ between.codes ++ (intercalate between (next :: rest)).codes :=
        List.intercalate_cons_cons ..
      rw [hcons, List.mem_append, List.mem_append, ih]
      simp [hc]

/-- Words without the character between them are told apart in the joined text. -/
theorem eq_of_intercalate_eq {us : List Text} (hts : ts ≠ []) (hus : us ≠ [])
    (ht : ∀ t ∈ ts, c ∉ t.codes) (hu : ∀ u ∈ us, c ∉ u.codes)
    (h : intercalate ⟨[c]⟩ ts = intercalate ⟨[c]⟩ us) : ts = us := by
  have hcut {vs : List Text} (hvs : vs ≠ []) (hv : ∀ v ∈ vs, c ∉ v.codes) :
      (intercalate ⟨[c]⟩ vs).codes.splitOn c = vs.map Text.codes := by
    refine List.splitOn_intercalate _ ?_ (by simpa using hvs)
    intro codes hcodes
    obtain ⟨v, hmem, rfl⟩ := List.mem_map.1 hcodes
    exact hv v hmem
  have hcodes : ts.map Text.codes = us.map Text.codes := by
    rw [← hcut hts ht, ← hcut hus hu, h]
  exact List.map_injective_iff.2 (fun _ _ hcodes => congrArg Text.mk hcodes) hcodes

/-- The text has no carriage return. -/
def IsUnreturned (t : Text) : Prop := .character '\r' ∉ t.codes

instance : DecidablePred IsUnreturned := fun _ => inferInstanceAs (Decidable (¬ _))

theorem IsUnreturned.append (ht : t.IsUnreturned) (hu : u.IsUnreturned) : (t ++ u).IsUnreturned := by
  intro h
  exact (List.mem_append.1 h).elim ht hu

theorem isUnreturned_intercalate_iff (hb : between.IsUnreturned) :
    (intercalate between ts).IsUnreturned ↔ ∀ t ∈ ts, t.IsUnreturned := by
  rw [IsUnreturned, mem_intercalate_iff hb]
  exact ⟨fun h t ht hc => h ⟨t, ht, hc⟩, fun h ⟨t, ht, hc⟩ => h t ht hc⟩

end Text

namespace Path
variable {p : Path} {t : Text}

theorem isUnreturned_toText_iff : p.toText.IsUnreturned ↔ ∀ part ∈ p.parts, part.IsUnreturned := by
  rw [← Text.isUnreturned_intercalate_iff (by decide : Text.IsUnreturned "/"), toText]
  split
  · next h =>
    rw [h.2]
    decide
  · have hanchor : p.anchor.text.IsUnreturned := by
      cases p.anchor <;> decide
    exact ⟨fun h hc => h (List.mem_append_right _ hc), hanchor.append⟩

private theorem isUnreturned_of_mem_ofText (ht : t.IsUnreturned) {part : Text}
    (hpart : part ∈ (ofText t).parts) : part.IsUnreturned := by
  obtain ⟨codes, hcodes, hpart⟩ := List.mem_filterMap.1 hpart
  split at hpart
  · cases hpart
  · cases hpart
    have hjoined : Text.intercalate "/" ((t.codes.splitOn (.character '/')).map Text.mk) = t := by
      rw [Text.intercalate, List.map_map]
      exact congrArg Text.mk ((congrArg _ (List.map_id _)).trans (List.intercalate_splitOn _))
    rw [← hjoined, Text.isUnreturned_intercalate_iff (by decide)] at ht
    exact ht _ (List.mem_map_of_mem hcodes)

theorem isUnreturned_child (hp : p.toText.IsUnreturned) (ht : t.IsUnreturned) :
    (p.child t).toText.IsUnreturned := by
  rw [isUnreturned_toText_iff] at hp ⊢
  intro part hpart
  unfold child join at hpart
  split at hpart
  · exact isUnreturned_of_mem_ofText ht hpart
  · exact (List.mem_append.1 hpart).elim (hp part) (isUnreturned_of_mem_ofText ht)

end Path
end DualImage
