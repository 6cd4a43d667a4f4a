import DualImage.Text.Basic
import DualImage.Text.Hexadecimal
import DualImage.Text.Printable

/-! Quoted text: how texts and bytes are shown inside a list, a mapping or a system message. -/
namespace DualImage.Text

/-- A single quote, unless the text holds single quotes and no double ones. -/
def quoteMark (t : Text) : Char :=
  if .character '\'' ∈ t.codes ∧ .character '"' ∉ t.codes then '"' else '\''

/-- The number of a code point, in the shortest of two, four and eight digits. -/
def numbered (n : Nat) : List Char :=
  if n < 0x100 then '\\' :: 'x' :: Hexadecimal.digits 2 n
  else if n < 0x10000 then '\\' :: 'u' :: Hexadecimal.digits 4 n
  else '\\' :: 'U' :: Hexadecimal.digits 8 n

/-- A code point between quotes. One that cannot be printed is numbered. -/
def escaped (quote : Char) : CodePoint → List Char
  | .surrogate offset => numbered (CodePoint.surrogate offset).number
  | .character c =>
    if c = quote ∨ c = '\\' then ['\\', c]
    else if c = '\t' then ['\\', 't']
    else if c = '\n' then ['\\', 'n']
    else if c = '\r' then ['\\', 'r']
    else if isPrintable c then [c]
    else numbered c.toNat

def quoted (t : Text) : String :=
  let quote := quoteMark t
  String.ofList (quote :: t.codes.flatMap (escaped quote) ++ [quote])

/-- Bytes stand for the characters of ASCII, and those above it are numbered. -/
def quotedBytes (bytes : List UInt8) : String :=
  let quote := quoteMark (ofChars (bytes.map (Char.ofNat ·.toNat)))
  let shown (b : UInt8) : List Char :=
    if b < 0x80 then escaped quote (.character (Char.ofNat b.toNat)) else numbered b.toNat
  String.ofList ('b' :: quote :: bytes.flatMap shown ++ [quote])

end DualImage.Text
