import DualImage.Text.Order
import Mathlib.Data.List.Sort

/-! Sorting by a key is the insertion sort of the library, by a relation that holds where the key of the
second element is not before that of the first. -/
namespace DualImage.Text

variable {α κ : Type} [LT κ] [DecidableLT κ]

theorem place_eq_orderedInsert (key : α → κ) (x : α) (xs : List α) :
    place key x xs = xs.orderedInsert (fun a b => ¬ key b < key a) x := by
  induction xs with
  | nil => rfl
  | cons y ys ih => rw [place, List.orderedInsert_cons, ite_not, ih]

theorem sortedBy_eq_insertionSort (key : α → κ) (xs : List α) :
    sortedBy key xs = xs.insertionSort fun a b => ¬ key b < key a := by
  unfold sortedBy List.insertionSort
  congr
  funext x ys
  exact place_eq_orderedInsert key x ys

theorem sortedBy_perm (key : α → κ) (xs : List α) : (sortedBy key xs).Perm xs := by
  rw [sortedBy_eq_insertionSort]
  exact List.perm_insertionSort ..

theorem sorted_perm (xs : List κ) : (sorted xs).Perm xs := sortedBy_perm ..

theorem mem_sorted {xs : List κ} {x : κ} : x ∈ sorted xs ↔ x ∈ xs := (sorted_perm xs).mem_iff

section
variable [LE κ] [Std.IsLinearOrder κ] [Std.LawfulOrderLT κ]

theorem sortedBy_pairwise (key : α → κ) (xs : List α) :
    (sortedBy key xs).Pairwise fun a b => ¬ key b < key a := by
  have : Std.Total fun a b : α => ¬ key b < key a :=
    ⟨fun a b => (Std.le_total (a := key a) (b := key b)).imp Std.not_lt.2 Std.not_lt.2⟩
  have : IsTrans α fun a b => ¬ key b < key a :=
    ⟨fun _ _ _ hab hbc => Std.not_lt.2 (Std.le_trans (Std.not_lt.1 hab) (Std.not_lt.1 hbc))⟩
  rw [sortedBy_eq_insertionSort]
  exact List.pairwise_insertionSort ..

theorem sorted_pairwise (xs : List κ) : (sorted xs).Pairwise fun a b => ¬ b < a :=
  sortedBy_pairwise id xs

theorem sortedBy_pairwise_lt {key : α → κ} {xs : List α} (h : (xs.map key).Nodup) :
    ((sortedBy key xs).map key).Pairwise (· < ·) := by
  have hdistinct : ((sortedBy key xs).map key).Nodup :=
    ((sortedBy_perm key xs).map key).nodup_iff.2 h
  refine List.pairwise_map.2
    (((sortedBy_pairwise key xs).and (List.pairwise_map.1 hdistinct)).imp ?_)
  rintro x y ⟨hle, hne⟩
  exact Std.lt_of_le_of_ne (Std.not_lt.1 hle) hne

theorem sorted_pairwise_lt {xs : List κ} (h : xs.Nodup) : (sorted xs).Pairwise (· < ·) := by
  have hsorted : ((sortedBy id xs).map id).Pairwise (· < ·) :=
    sortedBy_pairwise_lt (by simpa using h)
  rwa [List.map_id] at hsorted

/-- Where the keys tell the elements apart, sorting forgets in which order they came. -/
theorem sortedBy_eq_of_perm {key : α → κ} {xs ys : List α} (hperm : xs.Perm ys)
    (hone : ∀ x ∈ xs, ∀ y ∈ xs, key x = key y → x = y) : sortedBy key xs = sortedBy key ys := by
  have hsame : (sortedBy key xs).Perm (sortedBy key ys) :=
    (sortedBy_perm key xs).trans (hperm.trans (sortedBy_perm key ys).symm)
  refine hsame.eq_of_pairwise ?_ (sortedBy_pairwise key xs) (sortedBy_pairwise key ys)
  intro x y hx hy hxy hyx
  have hy' : y ∈ xs := hperm.mem_iff.2 ((sortedBy_perm key ys).mem_iff.1 hy)
  refine hone x ((sortedBy_perm key xs).mem_iff.1 hx) y hy' ?_
  exact Std.le_antisymm (Std.not_lt.1 hxy) (Std.not_lt.1 hyx)

end

end DualImage.Text
