import DualImage.Symbol.Basic

/-! How much a definition weighs for the linker. -/
namespace DualImage.Symbol

/-- The first that applies counts: a common symbol that is marked weak weighs as a common one. -/
inductive Strength where
  | hidden
  | common (size : Int)
  | weak
  | strong
  deriving DecidableEq, Repr

def strength (s : Symbol) : Strength :=
  if s.isLocal then .hidden
  else if s.isCommon then .common s.size
  else if s.isWeak then .weak
  else .strong

namespace Strength

/-- Among common symbols the larger is stronger. Two of any other kind are equal. -/
def below : Strength → Strength → Bool
  | hidden, b => b != hidden
  | common m, common n => m < n
  | common _, b => b == weak || b == strong
  | weak, b => b == strong
  | strong, _ => false

theorem below_irrefl (a : Strength) : a.below a = false := by
  cases a <;> simp [below]

theorem below_trans {a b c : Strength} (hab : a.below b = true) (hbc : b.below c = true) :
    a.below c = true := by
  cases a <;> cases b <;> cases c <;> simp_all [below]
  omega

end Strength
end DualImage.Symbol
