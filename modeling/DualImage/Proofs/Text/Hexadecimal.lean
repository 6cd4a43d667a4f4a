import DualImage.Text.Hexadecimal
import DualImage.Text.Numeral
import Mathlib.Tactic.IntervalCases

/-! Written digits in base sixteen, read again. -/
namespace DualImage.Text
namespace Hexadecimal
variable {width n : Nat} {cs : List Char}

private theorem exists_toDigits (n : Nat) :
    ∃ ds : List Nat, Nat.toDigits 16 n = ds.map Nat.digitChar ∧ (∀ d ∈ ds, d < 16) ∧
      ds.foldl (16 * · + ·) 0 = n ∧ ds ≠ [] := by
  induction n using Nat.strongRecOn with
  | ind n ih =>
    rw [Nat.toDigits_eq_if (by decide)]
    split
    · next h => exact ⟨[n], rfl, by simpa using h, by simp, by simp⟩
    · next h =>
      obtain ⟨ds, hds, hlt, hvalue, -⟩ := ih (n / 16) (by omega)
      refine ⟨ds ++ [n % 16], by simp [hds], fun d hd => ?_, ?_, by simp⟩
      · rcases List.mem_append.1 hd with hd | hd
        · exact hlt d hd
        · rw [List.mem_singleton] at hd
          omega
      · rw [List.foldl_append, hvalue, List.foldl_cons, List.foldl_nil]
        omega

/-- Zeros in front do not count. -/
theorem exists_digits (width n : Nat) :
    ∃ ds : List Nat, digits width n = ds.map Nat.digitChar ∧ (∀ d ∈ ds, d < 16) ∧
      ds.foldl (16 * · + ·) 0 = n ∧ ds ≠ [] := by
  obtain ⟨ds, hds, hlt, hvalue, hne⟩ := exists_toDigits n
  have hzeros (k : Nat) : (List.replicate k 0).foldl (16 * · + ·) 0 = 0 := by
    induction k with
    | zero => rfl
    | succ k ih => simpa [List.replicate_succ] using ih
  refine ⟨List.replicate (width - (Nat.toDigits 16 n).length) 0 ++ ds, ?_, ?_, ?_, by simp [hne]⟩
  · rw [digits, List.map_append, ← hds, List.map_replicate]
    rfl
  · intro d hd
    rcases List.mem_append.1 hd with hd | hd
    · rw [List.eq_of_mem_replicate hd]
      decide
    · exact hlt d hd
  · rw [List.foldl_append, hzeros, hvalue]

/-- Digits of the number, letters in either case, as many as the width or more. -/
def Spells (width : Nat) (cs : List Char) (n : Nat) : Prop :=
  ∃ padded, width ≤ padded ∧ cs.map Char.toLower = digits padded n

theorem spells_digits (width n : Nat) : Spells width (digits width n) n := by
  refine ⟨width, le_rfl, ?_⟩
  obtain ⟨ds, hds, hlt, -⟩ := exists_digits width n
  rw [hds, List.map_map]
  refine List.map_congr_left fun d hd => ?_
  have := hlt d hd
  interval_cases d <;> rfl

end Hexadecimal

namespace Numeral
variable {width n : Nat} {cs : List Char}

theorem digitValue?_digitChar {d : Nat} (h : d < 16) : digitValue? 16 (Nat.digitChar d) = some d := by
  interval_cases d <;> rfl

/-- The case of a letter does not count. -/
theorem digitValue?_toLower (c : Char) : digitValue? 16 c.toLower = digitValue? 16 c := by
  by_cases h : 65 ≤ c.toNat ∧ c.toNat ≤ 90
  · obtain ⟨hlow, hhigh⟩ := h
    rw [← Char.ofNat_toNat c]
    generalize c.toNat = k at hlow hhigh
    interval_cases k <;> rfl
  · have hlower : c.toLower = c := by
      unfold Char.toLower
      exact dif_neg h
    rw [hlower]

private theorem mapM_digitValue? {ds : List Nat} (h : ∀ d ∈ ds, d < 16) :
    (ds.map Nat.digitChar).mapM (digitValue? 16) = some ds := by
  induction ds with
  | nil => rfl
  | cons d rest ih =>
    rw [List.map_cons, List.mapM_cons, digitValue?_digitChar (h d List.mem_cons_self),
      ih fun e he => h e (List.mem_cons_of_mem d he)]
    rfl

theorem value?_of_spells (h : Hexadecimal.Spells width cs n) : value? 16 cs = some n := by
  obtain ⟨padded, -, hcs⟩ := h
  obtain ⟨ds, hds, hlt, hvalue, hne⟩ := Hexadecimal.exists_digits padded n
  have hmap : cs.map Char.toLower = ds.map Nat.digitChar := hcs.trans hds
  have hdigits : cs.mapM (digitValue? 16) = some ds := by
    rw [← mapM_digitValue? hlt, ← hmap, List.mapM_map]
    exact congrArg (cs.mapM ·) (funext fun c => (digitValue?_toLower c).symm)
  have hempty : cs.isEmpty = false := by
    cases cs with
    | nil => exact absurd (List.map_eq_nil_iff.1 hmap.symm) hne
    | cons c cs => rfl
  simp [value?, hempty, hdigits, hvalue]

end Numeral
end DualImage.Text
