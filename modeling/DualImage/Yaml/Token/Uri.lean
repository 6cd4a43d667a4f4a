import DualImage.Text.Numeral
import DualImage.Yaml.Cursor

/-! Addresses of tags. A byte may be written as a percent sign and two hexadecimal digits. -/
namespace DualImage.Yaml.Uri

def isPlain (c : Char) : Bool := c.isAlphanum || "-;/?:@&=+$,_.!~*'()[]".toList.contains c

def byte? : List Char → Option UInt8
  | '%' :: a :: b :: _ =>
    if isHexDigit a && isHexDigit b then (Text.Numeral.value? 16 [a, b]).map UInt8.ofNat else none
  | _ => none

/-- Written bytes in a row. -/
def bytes : Nat → Cursor → List UInt8 × Cursor
  | 0, c => ([], c)
  | fuel + 1, c =>
    match byte? c.rest with
    | none => ([], c)
    | some b =>
      let (more, c) := bytes fuel (c.skip 3)
      (b :: more, c)

/-- The characters that written bytes in a row make up. -/
def escapes (c : Cursor) : Except Fault (List Char × Cursor) :=
  let (row, c) := bytes c.rest.length c
  if c.sees '%' then .error .malformed
  else match String.fromUTF8? (ByteArray.mk row.toArray) with
    | some s => .ok (s.toList, c)
    | none => .error .malformed

def body : Nat → Cursor → Except Fault (List Char × Cursor)
  | 0, c => .ok ([], c)
  | fuel + 1, c => do
    let plain := c.rest.takeWhile isPlain
    let c := c.skip plain.length
    if !c.sees '%' then return (plain, c)
    let (escaped, c) ← escapes c
    let (more, c) ← body fuel c
    return (plain ++ escaped ++ more, c)

/-- An address holds at least one character. -/
def scan (c : Cursor) : Except Fault (String × Cursor) := do
  let (text, c) ← body (c.rest.length + 1) c
  if text.isEmpty then throw .malformed
  return (String.ofList text, c)

end DualImage.Yaml.Uri
