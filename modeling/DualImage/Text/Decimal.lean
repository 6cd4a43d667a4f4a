/-! Integers in base ten. Beyond a certain length they are neither read nor written. -/
namespace DualImage.Text.Decimal

/-- How many digits a number may have. -/
def maxDigits : Nat := 4300

/-- The written form, if it is not too long. The sign is no digit. -/
def written? (i : Int) : Option String :=
  let digits := Nat.toDigits 10 i.natAbs
  if digits.length ≤ maxDigits then
    some (String.ofList (if i < 0 then '-' :: digits else digits))
  else none

end DualImage.Text.Decimal
