/-! A place in the text of a YAML stream. -/
namespace DualImage.Yaml

/-- Why a stream gives no document: its form, or a number that cannot be read. -/
inductive Fault where
  | malformed
  | badNumber
  deriving DecidableEq, Repr

/-- Line breaks, once carriage returns are gone. -/
def isBreak (c : Char) : Bool := c == '\n' || c == '\x85' || c == '\u2028' || c == '\u2029'

def isBlank (c : Char) : Bool := c == ' ' || c == '\t'

/-- Whether nothing, a blank or a break comes next. -/
def isGap : Option Char → Bool
  | none => true
  | some c => isBlank c || isBreak c

/-- Whether the line ends here, or a space comes. -/
def isSpaceOrEnd : Option Char → Bool
  | none => true
  | some c => c == ' ' || isBreak c

/-- Characters that may stand in a stream. -/
def isAllowed (c : Char) : Bool :=
  let n := c.toNat
  n == 0x09 || n == 0x0A || n == 0x0D || (0x20 ≤ n && n ≤ 0x7E) || n == 0x85 ||
    (0xA0 ≤ n && n ≤ 0xFFFD) || 0x10000 ≤ n

def isHexDigit (c : Char) : Bool := c.isDigit || ('a' ≤ c && c ≤ 'f') || ('A' ≤ c && c ≤ 'F')

def byteOrderMark : Char := '\ufeff'

/-- Lines and columns count from zero. Behind a text that is not whole comes what cannot be read. -/
structure Cursor where
  rest : List Char
  isWhole : Bool
  index : Nat
  line : Nat
  column : Nat
  deriving Repr, Inhabited

namespace Cursor

/-- A text is read in blocks, of which the first is twice as long as the others. -/
def blockSize : Nat := 4096

/-- A block cannot be read if one of its characters may not stand in a stream. -/
def ofChars (cs : List Char) : Cursor :=
  let allowed := (cs.takeWhile isAllowed).length
  let readable :=
    if cs.length ≤ allowed then cs.length
    else if allowed < 2 * blockSize then 0
    else allowed / blockSize * blockSize
  ⟨cs.take readable, cs.length ≤ allowed, 0, 0, 0⟩

/-- Whether it cannot be said what comes next. -/
def isBlocked (c : Cursor) : Bool := c.rest.isEmpty && !c.isWhole

def peek? (c : Cursor) : Option Char := c.rest.head?

def peekAt? (c : Cursor) (n : Nat) : Option Char := c.rest[n]?

/-- The next character, if it is the given one. -/
def sees (c : Cursor) (ch : Char) : Bool := c.peek? == some ch

def seesBreak (c : Cursor) : Bool := c.peek?.any isBreak

/-- One character further. A byte order mark takes no column. -/
def next (c : Cursor) : Cursor :=
  match c.rest with
  | [] => c
  | ch :: rest =>
    let c := { c with rest, index := c.index + 1 }
    if isBreak ch then { c with line := c.line + 1, column := 0 }
    else if ch = byteOrderMark then c
    else { c with column := c.column + 1 }

def skip (c : Cursor) : Nat → Cursor
  | 0 => c
  | n + 1 => c.next.skip n

def skipWhile (c : Cursor) (p : Char → Bool) : Cursor := c.skip (c.rest.takeWhile p).length

/-- The rest of the line, which a comment takes. -/
def skipLine (c : Cursor) : Cursor := c.skipWhile (!isBreak ·)

/-- What a break counts for in a scalar. Line and paragraph separators stay themselves. -/
def breakText (ch : Char) : Char := if ch = '\x85' then '\n' else ch

/-- The text of a break that comes next. -/
def break? (c : Cursor) : Option Char := (c.peek?.filter isBreak).map breakText

/-- Three dashes or three dots on their own. -/
def seesMarker (c : Cursor) : Bool :=
  let start := c.rest.take 3
  (start == ['-', '-', '-'] || start == ['.', '.', '.']) && isGap (c.peekAt? 3)

/-- Blanks and a comment at the end of a line, and its break. -/
def endLine? (c : Cursor) : Except Fault Cursor :=
  let c := c.skipWhile (· == ' ')
  let c := if c.sees '#' then c.skipLine else c
  if c.seesBreak then .ok c.next else if c.rest.isEmpty then .ok c else .error .malformed

end Cursor
end DualImage.Yaml
