/-! Code points: characters, and the surrogates, two of which make up a character. -/
namespace DualImage

/-- A surrogate is known by its distance from the first one. -/
inductive CodePoint where
  | character (c : Char)
  | surrogate (offset : Fin 0x800)
  deriving DecidableEq, Repr, Inhabited

namespace CodePoint

instance : Coe Char CodePoint := ⟨character⟩

def firstSurrogate : Nat := 0xD800

def number : CodePoint → Nat
  | character c => c.toNat
  | surrogate offset => firstSurrogate + offset

/-- There is none beyond the last plane. -/
def ofNumber? (n : Nat) : Option CodePoint :=
  if h : n.isValidChar then some (character (Char.ofNatAux n h))
  else if h : firstSurrogate ≤ n ∧ n < firstSurrogate + 0x800 then
    some (surrogate ⟨n - firstSurrogate, by omega⟩)
  else none

def character? : CodePoint → Option Char
  | character c => some c
  | surrogate _ => none

/-- The character that a high surrogate and a low one behind it make up. -/
def combined? (high low : Fin 0x800) : Option Char :=
  if high.val < 0x400 ∧ 0x400 ≤ low.val then
    some (Char.ofNat (0x10000 + 0x400 * high + (low - 0x400)))
  else none

theorem number_injective {a b : CodePoint} (h : a.number = b.number) : a = b := by
  cases a with
  | character c =>
    cases b with
    | character d => exact congrArg character (Char.toNat_inj.1 h)
    | surrogate offset =>
      have hc : c.toNat.isValidChar := c.valid
      have := offset.isLt
      simp only [number, firstSurrogate, Nat.isValidChar] at h hc
      omega
  | surrogate offset =>
    cases b with
    | character d =>
      have hd : d.toNat.isValidChar := d.valid
      have := offset.isLt
      simp only [number, firstSurrogate, Nat.isValidChar] at h hd
      omega
    | surrogate other => exact congrArg surrogate (Fin.ext (Nat.add_left_cancel h))

end CodePoint
end DualImage
