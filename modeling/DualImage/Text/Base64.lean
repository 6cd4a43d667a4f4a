/-! Bytes in base sixty-four. The reader is lenient: what is no digit does not count, and neither
does anything behind a group that is padded. -/
namespace DualImage.Text.Base64

/-- The letters of both cases, the decimal digits, the plus sign and the slash, in this order. -/
def digitValue? (c : Char) : Option Nat :=
  if c.isUpper then some (c.toNat - 'A'.toNat)
  else if c.isLower then some (c.toNat - 'a'.toNat + 26)
  else if c.isDigit then some (c.toNat - '0'.toNat + 52)
  else if c == '+' then some 62
  else if c == '/' then some 63
  else none

/-- Four digits make up three bytes. What lies below this in a digit goes into the next byte. -/
def scale : (held : Nat) → Nat
  | 0 => 64
  | 1 => 16
  | 2 => 4
  | _ => 1

/-- Reads on in a group of which some digits are `held`. So far `left` is the part of the last of
them that waits for its byte, and `signs` counts the equality signs behind it. -/
def readFrom? : (held left signs : Nat) → List Char → Option (List UInt8)
  | held, _, _, [] => if held = 0 then some [] else none
  | held, left, signs, c :: rest =>
    if c = '=' then
      if held < 2 then readFrom? held left signs rest
      else if held + signs < 3 then readFrom? held left (signs + 1) rest
      else some []
    else match digitValue? c with
      | none => readFrom? held left signs rest
      | some value =>
        let byte := left * (64 / scale held) + value / scale held
        let more := readFrom? ((held + 1) % 4) (value % scale held) 0 rest
        if held = 0 then more else more.map (UInt8.ofNat byte :: ·)

/-- The bytes of a text whose groups are all complete. -/
def bytes? (cs : List Char) : Option (List UInt8) := readFrom? 0 0 0 cs

end DualImage.Text.Base64
