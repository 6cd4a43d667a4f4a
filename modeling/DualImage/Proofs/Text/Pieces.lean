import DualImage.Text.Blank
import Mathlib.Data.List.Basic

/-! The pieces of a list that was cut: together they are what the cuts leave over. -/
namespace DualImage
variable {α : Type} {p : α → Bool} {a : α} {xs piece : List α}

theorem flatten_splitOnP (p : α → Bool) (xs : List α) :
    (xs.splitOnP p).flatten = xs.filter (!p ·) := by
  induction xs with
  | nil => rfl
  | cons x xs ih =>
    rw [List.splitOnP_cons_eq_if_modifyHead]
    split
    · next hx => rw [List.flatten_cons, List.nil_append, ih, List.filter_cons_of_neg (by simp [hx])]
    · next hx =>
      obtain ⟨first, rest, hsplit⟩ := List.exists_cons_of_ne_nil (List.splitOnP_ne_nil p xs)
      rw [hsplit, List.flatten_cons] at ih
      rw [hsplit, List.modifyHead_cons, List.flatten_cons, List.cons_append, ih,
        List.filter_cons_of_pos (by simp [hx])]

theorem eq_false_of_mem_splitOnP (hpiece : piece ∈ xs.splitOnP p) (ha : a ∈ piece) :
    p a = false := by
  have hmem : a ∈ (xs.splitOnP p).flatten := List.mem_flatten.2 ⟨piece, hpiece, ha⟩
  rw [flatten_splitOnP] at hmem
  simpa using (List.mem_filter.1 hmem).2

namespace Text
variable {c : Char} {cs w : List Char}

theorem not_blank_of_mem_words (hw : w ∈ words cs) (hc : c ∈ w) : isBlank c = false :=
  eq_false_of_mem_splitOnP (List.mem_filter.1 hw).1 hc

theorem words_ne_nil (hc : c ∈ cs) (hblank : isBlank c = false) : words cs ≠ [] := by
  have hmem : c ∈ (cs.splitOnP isBlank).flatten := by
    rw [flatten_splitOnP]
    exact List.mem_filter.2 ⟨hc, by simp [hblank]⟩
  obtain ⟨w, hw, hcw⟩ := List.mem_flatten.1 hmem
  have hne : w ≠ [] := List.ne_nil_of_mem hcw
  exact List.ne_nil_of_mem (List.mem_filter.2 ⟨hw, by simp [hne]⟩)

end Text
end DualImage
