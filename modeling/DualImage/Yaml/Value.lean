import DualImage.Text.Basic
import DualImage.Text.Numeral
import DualImage.Yaml.Cursor

/-! The forms and the values of plain scalars: nothing, truth values and integers. -/
namespace DualImage.Yaml.Value

/-- The empty text stands for nothing too. -/
def nullWords : List String := ["~", "null", "Null", "NULL"]

def trueWords : List String := ["yes", "Yes", "YES", "true", "True", "TRUE", "on", "On", "ON"]

def falseWords : List String := ["no", "No", "NO", "false", "False", "FALSE", "off", "Off", "OFF"]

def truth? (s : String) : Option Bool :=
  if trueWords.contains s then some true
  else if falseWords.contains s then some false
  else none

/-- A text without the line feed at its end. -/
def withoutBreak (s : String) : String :=
  if s.endsWith "\n" then String.ofList s.toList.dropLast else s

def isOctal (c : Char) : Bool := '0' ≤ c && c ≤ '7'

def isBinary (c : Char) : Bool := c == '0' || c == '1'

/-- Some digits, between which underscores may stand anywhere. -/
def isRun (p : Char → Bool) (cs : List Char) : Bool :=
  !cs.isEmpty && cs.all fun c => p c || c == '_'

/-- A part of a number in base sixty after the first: one digit, or two below sixty. -/
def isSixtieth : List Char → Bool
  | [c] => c.isDigit
  | [a, b] => '0' ≤ a && a ≤ '5' && b.isDigit
  | _ => false

/-- The form of a number without a sign. A number in base ten may go on in base sixty. -/
def isMagnitude : List Char → Bool
  | ['0'] => true
  | '0' :: 'b' :: rest => isRun isBinary rest
  | '0' :: 'x' :: rest => isRun isHexDigit rest
  | '0' :: rest => isRun isOctal rest
  | c :: rest => match (c :: rest).splitOn ':' with
    | first :: more => c.isDigit && isRun (·.isDigit) first && more.all isSixtieth
    | [] => false
  | [] => false

def isInteger : List Char → Bool
  | '-' :: rest => isMagnitude rest
  | '+' :: rest => isMagnitude rest
  | cs => isMagnitude cs

/-- The base is known by the start of a number, and parts between colons are in base sixty. -/
def magnitude? (cs : List Char) : Option Int :=
  match cs with
  | '0' :: 'b' :: rest => Text.Numeral.integer? 2 rest
  | '0' :: 'x' :: rest => Text.Numeral.integer? 16 rest
  | '0' :: _ => Text.Numeral.integer? 8 cs
  | _ => (cs.splitOn ':').foldlM (fun n part => return 60 * n + (← Text.Numeral.integer? 10 part)) 0

/-- The number that a text stands for, whatever its form. Underscores do not count. -/
def integer? (t : Text) : Option Int := do
  match (← t.chars?).filter (· != '_') with
  | '-' :: rest => return -(← magnitude? rest)
  | '+' :: rest => magnitude? rest
  | cs => magnitude? cs

end DualImage.Yaml.Value
