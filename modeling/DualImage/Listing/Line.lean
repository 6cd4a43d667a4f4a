import DualImage.Symbol.Basic
import DualImage.Text.Numeral

/-! One line of a symbol table listing: address, flag columns, section, size, name. -/
namespace DualImage.Listing

/-- The fields as they stand. The last holds markers and the name, without blanks at its end. -/
structure Fields where
  address : List Char
  code : List Char
  sectionName : List Char
  size : List Char
  label : List Char
  deriving DecidableEq, Repr

def isHexDigit (c : Char) : Bool :=
  ('0' ≤ c && c ≤ '9') || ('a' ≤ c && c ≤ 'f') || ('A' ≤ c && c ≤ 'F')

def isGap (c : Char) : Bool := c == ' ' || c == '\t'

/-- What may stand in each flag column. -/
def columnChars : List (List Char) :=
  [['l', 'g', 'u', '!', ' '], ['w', ' '], ['C', ' '], ['W', ' '], ['I', 'i', ' '], ['D', 'd', ' '],
    ['F', 'f', 'O', ' ']]

/-- Allowed characters in all columns, and what follows them. -/
def code? : List (List Char) → List Char → Option (List Char × List Char)
  | [], rest => some ([], rest)
  | allowed :: more, c :: rest =>
    if c ∈ allowed then (code? more rest).map fun (code, rest) => (c :: code, rest) else none
  | _ :: _, [] => none

/-- The text after a gap, if a gap comes first. -/
def afterGap? : List Char → Option (List Char)
  | c :: rest => if isGap c then some (rest.dropWhile isGap) else none
  | [] => none

/-- A run without blanks that a gap precedes, and what follows it. -/
def word? (cs : List Char) : Option (List Char × List Char) := do
  let rest ← afterGap? cs
  let word := rest.takeWhile (!Text.isBlank ·)
  if word.isEmpty then none else some (word, rest.dropWhile (!Text.isBlank ·))

/-- All that follows a gap, on one line. -/
def label? (cs : List Char) : Option (List Char) := do
  let rest ← afterGap? cs
  let label := Text.trimEnd rest
  if label.isEmpty || (label.head?.any Text.isBlank) || '\n' ∈ label then none else some label

/-- A single space separates address and flags. -/
def Fields.ofLine? (line : List Char) : Option Fields := do
  let address := line.takeWhile isHexDigit
  let ' ' :: rest := line.dropWhile isHexDigit | none
  if address.isEmpty then none
  let (code, rest) ← code? columnChars rest
  let (sectionName, rest) ← word? rest
  let (size, rest) ← word? rest
  let label ← label? rest
  return ⟨address, code, sectionName, size, label⟩

def maxWord : Int := 0xFFFFFFFF

/-- A number that does not exceed 32 bits. A size may carry a sign. -/
def word32? (cs : List Char) : Option Int :=
  (Text.Numeral.integer? 16 cs).filter (· ≤ maxWord)

/-- What a line turns out to be. -/
inductive Reading where
  | symbol (s : Symbol)
  | badLocation
  | badSize
  | noSymbol
  deriving DecidableEq, Repr

/-- Markers before the name are left out. -/
def Reading.ofLine (line : List Char) (package suffix : Text) : Reading :=
  match Fields.ofLine? line with
  | none => .noSymbol
  | some fields =>
    match word32? fields.address, word32? fields.size with
    | none, _ => .badLocation
    | some _, none => .badSize
    | some address, some size =>
      .symbol
        { name := String.ofList ((Text.words fields.label).getLast?.getD [])
          code := String.ofList fields.code
          sectionName := String.ofList fields.sectionName
          size
          address
          package
          suffix }

def Reading.symbol? : Reading → Option Symbol
  | .symbol s => some s
  | _ => none

/-- Why a line that has the form of a symbol is passed over. -/
def Reading.remark? (line : List Char) : Reading → Option Text
  | .badLocation => some (remark "location")
  | .badSize => some (remark "size")
  | _ => none
where
  remark (field : String) : Text :=
    "Could not convert " ++ field ++ " from object file line --- " ++
      String.ofList (Text.trim line)

end DualImage.Listing
