/-! The two written forms of integers in base sixteen. -/
namespace DualImage.Text.Hexadecimal

/-- Lower case digits, at least `width` of them. -/
def digits (width n : Nat) : List Char :=
  let ds := Nat.toDigits 16 n
  List.replicate (width - ds.length) '0' ++ ds

/-- Sign, mark and digits. The whole takes at least `width` characters, zeros filling the gap. -/
def written (width : Nat) (i : Int) : String :=
  let sign := if i < 0 then ['-'] else []
  String.ofList (sign ++ '0' :: 'x' :: digits (width - sign.length - 2) i.natAbs)

end DualImage.Text.Hexadecimal
