import DualImage.Text.Blank
import DualImage.Text.Decimal
import DualImage.Text.Digit

/-! Integers as text in a base of at most sixteen. The reader is lenient: it takes blanks around the
number, a sign, the mark of the base, and underscores between digits. -/
namespace DualImage.Text.Numeral

/-- Letters count in either case; the digits below ten may be of any script. -/
def digitValue? (base : Nat) (c : Char) : Option Nat :=
  let value := match decimalValue? c with
    | some n => some n
    | none =>
      if 'a' ≤ c && c ≤ 'f' then some (c.toNat - 'a'.toNat + 10)
      else if 'A' ≤ c && c ≤ 'F' then some (c.toNat - 'A'.toNat + 10)
      else none
  value.filter (· < base)

/-- The value of a non-empty run of digits. Only in base ten is there a limit to their number. -/
def value? (base : Nat) (cs : List Char) : Option Nat :=
  if cs.isEmpty || (base == 10 && Decimal.maxDigits < cs.length) then none
  else (cs.mapM (digitValue? base)).map (·.foldl (base * · + ·) 0)

/-- Groups of digits with a single underscore between two of them. -/
def grouped? (base : Nat) (cs : List Char) : Option Nat :=
  let groups := cs.splitOn '_'
  if groups.any (·.isEmpty) then none else value? base groups.flatten

/-- Letters that mark a base behind a zero. -/
def marks : Nat → List Char
  | 2 => ['b', 'B']
  | 8 => ['o', 'O']
  | 16 => ['x', 'X']
  | _ => []

/-- A magnitude, with or without the mark of its base; after the mark one underscore may stand. -/
def magnitude? (base : Nat) : List Char → Option Nat
  | digit :: mark :: rest =>
    if decimalValue? digit = some 0 ∧ mark ∈ marks base then
      match rest with
      | '_' :: rest => grouped? base rest
      | rest => grouped? base rest
    else grouped? base (digit :: mark :: rest)
  | cs => grouped? base cs

/-- A magnitude after an optional sign. -/
def signed? (base : Nat) : List Char → Option Int
  | '-' :: rest => (magnitude? base rest).map fun n => -(n : Int)
  | '+' :: rest => (magnitude? base rest).map Int.ofNat
  | cs => (magnitude? base cs).map Int.ofNat

/-- Blanks that may stand around a number. Information separators may not. -/
def isMargin (c : Char) : Bool := isBlank c && !(0x1C ≤ c.toNat && c.toNat ≤ 0x1F)

def integer? (base : Nat) (cs : List Char) : Option Int :=
  signed? base ((cs.dropWhile isMargin).reverse.dropWhile isMargin).reverse

end DualImage.Text.Numeral
