import DualImage.Text.Basic
import DualImage.Text.Numeral
import DualImage.Yaml.Cursor

/-! Scalars between single or double quotes. -/
namespace DualImage.Yaml.Quoted

/-- Breaks on otherwise empty lines, up to the next text. A document marker may not come here. -/
def emptyLines : Nat → Cursor → Except Fault (List Char × Cursor)
  | 0, _ => .error .malformed
  | fuel + 1, c =>
    if c.seesMarker then .error .malformed
    else
      let c := c.skipWhile isBlank
      match c.break? with
      | some ch => do
        let (more, c) ← emptyLines fuel c.next
        return (ch :: more, c)
      | none => .ok ([], c)

/-- A break between words is a space. More breaks stand for one less than their number. -/
def fold (first : Char) (more : List Char) : List Char :=
  if first != '\n' then first :: more else if more.isEmpty then [' '] else more

/-- Blanks, or a folded break with the blanks around it. -/
def gap (fuel : Nat) (c : Cursor) : Except Fault (List Char × Cursor) :=
  let blanks := c.rest.takeWhile isBlank
  let c := c.skip blanks.length
  match c.break? with
  | some first => do
    let (more, c) ← emptyLines fuel c.next
    return (fold first more, c)
  | none => if c.rest.isEmpty then .error .malformed else .ok (blanks, c)

/-- What a letter after the backslash stands for. -/
def escape? : Char → Option Char
  | '0' => some '\x00'
  | 'a' => some '\x07'
  | 'b' => some '\x08'
  | 't' => some '\t'
  | '\t' => some '\t'
  | 'n' => some '\n'
  | 'v' => some '\x0b'
  | 'f' => some '\x0c'
  | 'r' => some '\r'
  | 'e' => some '\x1b'
  | ' ' => some ' '
  | '"' => some '"'
  | '\\' => some '\\'
  | '/' => some '/'
  | 'N' => some '\x85'
  | '_' => some '\xa0'
  | 'L' => some '\u2028'
  | 'P' => some '\u2029'
  | _ => none

/-- How many digits follow a letter that gives a character by its number. -/
def codeLength? : Char → Option Nat
  | 'x' => some 2
  | 'u' => some 4
  | 'U' => some 8
  | _ => none

/-- The code point of so many hexadecimal digits, which may be a surrogate. -/
def code (length : Nat) (c : Cursor) : Except Fault (CodePoint × Cursor) :=
  let digits := c.rest.take length
  if digits.length < length || !digits.all isHexDigit then .error .malformed
  else match (Text.Numeral.value? 16 digits).bind CodePoint.ofNumber? with
    | some code => .ok (code, c.skip length)
    | none => .error .badNumber

/-- What a backslash begins. One before a break joins two lines. -/
def escaped (fuel : Nat) (c : Cursor) : Except Fault (Text × Cursor) :=
  match c.peek? with
  | none => .error .malformed
  | some ch =>
    match escape? ch, codeLength? ch with
    | some plain, _ => .ok (.ofChars [plain], c.next)
    | none, some length => do
      let (code, c) ← code length c.next
      return (⟨[code]⟩, c)
    | none, none =>
      if isBreak ch then do
        let (more, c) ← emptyLines fuel c.next
        return (.ofChars more, c)
      else .error .malformed

/-- The text up to the closing quote. A single quote inside single quotes is written twice. -/
def body (double : Bool) : Nat → Cursor → Text → Except Fault (Text × Cursor)
  | 0, _, _ => .error .malformed
  | fuel + 1, c, done =>
    match c.peek? with
    | none => .error .malformed
    | some ch =>
      if double && ch == '"' then .ok (done, c.next)
      else if !double && ch == '\'' then
        if c.peekAt? 1 == some '\'' then body double fuel (c.skip 2) (done ++ "'")
        else .ok (done, c.next)
      else if double && ch == '\\' then do
        let (piece, c) ← escaped fuel c.next
        body double fuel c (done ++ piece)
      else if isBlank ch || isBreak ch then do
        let (piece, c) ← gap fuel c
        body double fuel c (done ++ Text.ofChars piece)
      else body double fuel c.next (done ++ Text.ofChars [ch])

/-- A scalar whose opening quote comes next. -/
def scan (double : Bool) (c : Cursor) : Except Fault (Text × Cursor) :=
  body double (c.rest.length + 1) c.next ""

end DualImage.Yaml.Quoted
