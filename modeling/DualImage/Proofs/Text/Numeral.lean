import DualImage.Proofs.Text.Pieces
import DualImage.Text.Numeral

/-! Which words are read as numbers, and as which ones: the reader's grammar in full. -/
namespace DualImage.Text.Numeral
variable {base n : Nat} {cs rest : List Char} {c : Char} {i : Int}

section
variable (base)

private theorem digitValue?_underscore : digitValue? base '_' = none := by
  have hvalue : decimalValue? '_' = none := by decide
  simp [digitValue?, hvalue]

private theorem digitValue?_plus : digitValue? base '+' = none := by
  have hvalue : decimalValue? '+' = none := by decide
  simp [digitValue?, hvalue]

private theorem digitValue?_minus : digitValue? base '-' = none := by
  have hvalue : decimalValue? '-' = none := by decide
  simp [digitValue?, hvalue]

end

/-- The letter of a mark is no digit of its base. -/
private theorem plain_of_mem_marks (h : c ∈ marks base) : digitValue? base c = none ∧ c ≠ '_' := by
  unfold marks at h
  split at h
  all_goals simp only [List.mem_cons, List.not_mem_nil, or_false] at h
  all_goals rcases h with rfl | rfl <;> decide

private theorem exists_digit_of_value? (h : value? base cs = some n) :
    cs ≠ [] ∧ ∀ c ∈ cs, ∃ d, digitValue? base c = some d := by
  unfold value? at h
  split at h
  · cases h
  · next hlength =>
    refine ⟨fun hnil => hlength (by simp [hnil]), ?_⟩
    obtain ⟨ds, hds, -⟩ := Option.map_eq_some_iff.1 h
    clear h hlength
    induction cs generalizing ds with
    | nil => simp
    | cons c cs ih =>
      rw [List.mapM_cons] at hds
      obtain ⟨d, hd, hrest⟩ := Option.bind_eq_some_iff.1 hds
      obtain ⟨ds, hds, -⟩ := Option.bind_eq_some_iff.1 hrest
      exact List.forall_mem_cons.2 ⟨⟨d, hd⟩, ih ds hds⟩

theorem grouped?_eq_some_iff : grouped? base cs = some n ↔
    ∃ groups : List (List Char), (∀ g ∈ groups, g ≠ []) ∧ ['_'].intercalate groups = cs ∧
      value? base groups.flatten = some n := by
  constructor
  · intro h
    unfold grouped? at h
    dsimp only at h
    split at h
    · cases h
    · next hempty =>
      refine ⟨cs.splitOn '_', fun g hg hnil => hempty ?_, List.intercalate_splitOn _, h⟩
      exact List.any_eq_true.2 ⟨g, hg, by simp [hnil]⟩
  · rintro ⟨groups, hgroups, rfl, hvalue⟩
    obtain ⟨hne, hdigits⟩ := exists_digit_of_value? hvalue
    have hsplit : (['_'].intercalate groups).splitOn '_' = groups := by
      refine List.splitOn_intercalate _ (fun g hg hmem => ?_) ?_
      · obtain ⟨d, hd⟩ := hdigits '_' (List.mem_flatten.2 ⟨g, hg, hmem⟩)
        rw [digitValue?_underscore] at hd
        cases hd
      · rintro rfl
        exact hne rfl
    have hnone : groups.any (·.isEmpty) = false := by
      simpa using fun g hg => hgroups g hg
    simp [grouped?, hsplit, hnone, hvalue]

/-- What may stand between the sign and the digits. -/
def IsMark (base : Nat) (mark : List Char) : Prop :=
  mark = [] ∨ ∃ zero letter, decimalValue? zero = some 0 ∧ letter ∈ marks base ∧
    (mark = [zero, letter] ∨ mark = [zero, letter, '_'])

private theorem digit_of_mem_of_grouped? (h : grouped? base cs = some n) (hc : c ∈ cs)
    (hunderscore : c ≠ '_') : ∃ d, digitValue? base c = some d := by
  unfold grouped? at h
  dsimp only at h
  split at h
  · cases h
  · refine (exists_digit_of_value? h).2 c ?_
    have hflatten : (cs.splitOn '_').flatten = cs.filter (!· == '_') := flatten_splitOnP _ cs
    rw [hflatten]
    exact List.mem_filter.2 ⟨hc, by simpa using hunderscore⟩

private theorem grouped?_underscore (base : Nat) (rest : List Char) :
    grouped? base ('_' :: rest) = none := by
  simp [grouped?, List.splitOn_cons_eq_if_modifyHead]

theorem magnitude?_eq_some_iff : magnitude? base cs = some n ↔
    ∃ mark rest, IsMark base mark ∧ mark ++ rest = cs ∧ grouped? base rest = some n := by
  constructor
  · intro h
    unfold magnitude? at h
    split at h
    · next zero letter rest =>
      split at h
      · next hmark =>
        have hboth (mark : List Char) (h : mark = [zero, letter] ∨ mark = [zero, letter, '_']) :
            IsMark base mark := .inr ⟨zero, letter, hmark.1, hmark.2, h⟩
        split at h
        · next rest => exact ⟨[zero, letter, '_'], rest, hboth _ (.inr rfl), rfl, h⟩
        · exact ⟨[zero, letter], rest, hboth _ (.inl rfl), rfl, h⟩
      · exact ⟨[], _, .inl rfl, rfl, h⟩
    · exact ⟨[], _, .inl rfl, rfl, h⟩
  · rintro ⟨mark, rest, hmark, rfl, h⟩
    rcases hmark with rfl | ⟨zero, letter, hzero, hletter, rfl | rfl⟩
    · rw [List.nil_append]
      unfold magnitude?
      split
      · next zero letter rest =>
        rw [if_neg, h]
        rintro ⟨-, hletter⟩
        obtain ⟨d, hd⟩ := digit_of_mem_of_grouped? h (c := letter) (by simp)
          (plain_of_mem_marks hletter).2
        rw [(plain_of_mem_marks hletter).1] at hd
        cases hd
      · exact h
    · cases rest with
      | nil => simp [magnitude?, hzero, hletter, h]
      | cons c rest =>
        by_cases hc : c = '_'
        · rw [hc, grouped?_underscore] at h
          cases h
        · simp [magnitude?, hzero, hletter, h, hc]
    · simp [magnitude?, hzero, hletter, h]

private theorem head_of_magnitude? (h : magnitude? base (c :: rest) = some n) :
    c ≠ '-' ∧ c ≠ '+' := by
  obtain ⟨mark, digits, hmark, hcs, hgrouped⟩ := magnitude?_eq_some_iff.1 h
  rcases hmark with rfl | ⟨zero, letter, hzero, -, rfl | rfl⟩
  · rw [List.nil_append] at hcs
    subst hcs
    have hdigit := digit_of_mem_of_grouped? hgrouped (c := c) List.mem_cons_self
    constructor
    · rintro rfl
      obtain ⟨d, hd⟩ := hdigit (by decide)
      rw [digitValue?_minus] at hd
      cases hd
    · rintro rfl
      obtain ⟨d, hd⟩ := hdigit (by decide)
      rw [digitValue?_plus] at hd
      cases hd
  all_goals
    obtain ⟨rfl, -⟩ := List.cons.inj hcs
    constructor
    · rintro rfl
      revert hzero
      decide
    · rintro rfl
      revert hzero
      decide

theorem signed?_eq_some_iff : signed? base cs = some i ↔
    ∃ sign rest n, sign ∈ [[], ['+'], ['-']] ∧ sign ++ rest = cs ∧
      magnitude? base rest = some n ∧ i = if sign = ['-'] then -(n : Int) else n := by
  constructor
  · intro h
    unfold signed? at h
    split at h
    · obtain ⟨_, hlifted, rfl⟩ := Option.map_eq_some_iff.1 h
      obtain ⟨n, hn, he⟩ := Option.bind_eq_some_iff.1 hlifted
      cases he
      exact ⟨['-'], _, n, by simp, rfl, hn, rfl⟩
    · obtain ⟨n, hn, rfl⟩ := Option.map_eq_some_iff.1 h
      exact ⟨['+'], _, n, by simp, rfl, hn, rfl⟩
    · obtain ⟨n, hn, rfl⟩ := Option.map_eq_some_iff.1 h
      exact ⟨[], _, n, by simp, rfl, hn, rfl⟩
  · rintro ⟨sign, rest, n, hsign, rfl, h, rfl⟩
    simp only [List.mem_cons, List.not_mem_nil, or_false] at hsign
    rcases hsign with rfl | rfl | rfl
    · cases rest with
      | nil => simp [signed?, h]
      | cons c rest =>
        obtain ⟨hminus, hplus⟩ := head_of_magnitude? h
        rw [List.nil_append, signed?.eq_3 _ _ (fun rest he => hminus (List.cons.inj he).1)
          fun rest he => hplus (List.cons.inj he).1, h]
        rfl
    · rw [List.singleton_append, signed?, h]
      rfl
    · rw [List.singleton_append, signed?, h]
      rfl

/-- A number cut into its sign, its mark and its groups of digits. -/
structure Parts where
  sign : List Char
  mark : List Char
  groups : List (List Char)
  deriving DecidableEq, Repr

namespace Parts
variable {p : Parts}

def chars (p : Parts) : List Char := p.sign ++ p.mark ++ ['_'].intercalate p.groups

structure Lawful (base : Nat) (p : Parts) : Prop where
  sign : p.sign ∈ [[], ['+'], ['-']]
  mark : IsMark base p.mark
  groups : ∀ g ∈ p.groups, g ≠ []

/-- All groups make up one run of digits, which must be digits of the base. -/
def number? (base : Nat) (p : Parts) : Option Int :=
  (value? base p.groups.flatten).map fun n : Nat => if p.sign = ['-'] then -(n : Int) else n

theorem neg_iff (h : p.number? base = some i) : i < 0 ↔ p.sign = ['-'] ∧ i ≠ 0 := by
  obtain ⟨n, -, rfl⟩ := Option.map_eq_some_iff.1 h
  by_cases hsign : p.sign = ['-']
  · simp only [hsign, if_true, true_and]
    omega
  · simp [hsign]

end Parts

private theorem dropWhile_isMargin (h : ∀ c ∈ cs, isBlank c = false) :
    cs.dropWhile isMargin = cs := by
  cases cs with
  | nil => rfl
  | cons c cs => simp [isMargin, h c List.mem_cons_self]

/-- Only on a text without blanks does the number take all of it. -/
theorem integer?_eq_some_iff (h : ∀ c ∈ cs, isBlank c = false) : integer? base cs = some i ↔
    ∃ p : Parts, p.Lawful base ∧ p.chars = cs ∧ p.number? base = some i := by
  have hreverse : ∀ c ∈ cs.reverse, isBlank c = false := fun c hc => h c (List.mem_reverse.1 hc)
  rw [integer?, dropWhile_isMargin h, dropWhile_isMargin hreverse, List.reverse_reverse,
    signed?_eq_some_iff]
  constructor
  · rintro ⟨sign, _, n, hsign, rfl, hmagnitude, rfl⟩
    obtain ⟨mark, _, hmark, rfl, hgrouped⟩ := magnitude?_eq_some_iff.1 hmagnitude
    obtain ⟨groups, hgroups, rfl, hvalue⟩ := grouped?_eq_some_iff.1 hgrouped
    refine ⟨⟨sign, mark, groups⟩, ⟨hsign, hmark, hgroups⟩, List.append_assoc .., ?_⟩
    rw [Parts.number?, hvalue]
    rfl
  · rintro ⟨p, hp, rfl, hnumber⟩
    obtain ⟨n, hvalue, rfl⟩ := Option.map_eq_some_iff.1 hnumber
    refine ⟨p.sign, _, n, hp.sign, (List.append_assoc ..).symm, ?_, rfl⟩
    exact magnitude?_eq_some_iff.2 ⟨p.mark, _, hp.mark, rfl,
      grouped?_eq_some_iff.2 ⟨p.groups, hp.groups, rfl, hvalue⟩⟩

end DualImage.Text.Numeral
