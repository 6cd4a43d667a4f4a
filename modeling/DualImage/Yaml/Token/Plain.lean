import DualImage.Yaml.Token.Quoted

/-! Scalars without quotes. -/
namespace DualImage.Yaml.Plain

/-- Characters that end a plain scalar between brackets. -/
def flowStops : List Char := ",?[]\x7b\x7d".toList

def flowEnds : List Char := ",[]\x7b\x7d".toList

/-- Whether a colon before this ends a plain scalar. -/
def endsAtColon (flow : Bool) (next : Option Char) : Bool :=
  isGap next || (flow && next.any (flowEnds.contains ·))

/-- The characters up to a blank, a break, a colon that ends the scalar, or a bracket. -/
def run (flow : Bool) : List Char → List Char
  | [] => []
  | ch :: rest =>
    if isGap (some ch) || (ch == ':' && endsAtColon flow rest.head?) ||
        (flow && flowStops.contains ch) then []
    else ch :: run flow rest

/-- What lies between two runs. -/
structure Gap where
  text : List Char
  cursor : Cursor
  newLine : Bool

/-- Breaks and spaces after a first break. Nothing follows a document marker. -/
def emptyLines : Nat → Cursor → List Char × Bool × Cursor
  | 0, c => ([], false, c)
  | fuel + 1, c =>
    if c.seesMarker then ([], false, c)
    else
      let c := c.skipWhile (· == ' ')
      match c.break? with
      | some ch =>
        let (more, goesOn, c) := emptyLines fuel c.next
        (ch :: more, goesOn, c)
      | none => ([], true, c)

/-- Spaces, or a folded break. An empty text ends the scalar. -/
def gap (c : Cursor) : Gap :=
  let spaces := c.rest.takeWhile (· == ' ')
  let c := c.skip spaces.length
  match c.break? with
  | some first =>
    let (more, goesOn, c) := emptyLines (c.rest.length + 1) c.next
    ⟨if goesOn then Quoted.fold first more else [], c, true⟩
  | none => ⟨spaces, c, false⟩

/-- Text read so far, the gap after it, and whether that gap held a break. -/
def body (flow : Bool) (indent : Int) : Nat → Cursor → List Char → List Char → Bool →
    List Char × Cursor × Bool
  | 0, c, done, _, newLine => (done, c, newLine)
  | fuel + 1, c, done, between, newLine =>
    let piece := if c.sees '#' then [] else run flow c.rest
    if piece.isEmpty then (done, c, newLine)
    else
      let done := done ++ between ++ piece
      let g := gap (c.skip piece.length)
      if g.text.isEmpty || g.cursor.sees '#' || (!flow && (g.cursor.column : Int) < indent) then
        (done, g.cursor, g.newLine)
      else body flow indent fuel g.cursor done g.text g.newLine

/-- The text, what follows, and whether a new line was begun. Outside brackets the lines of a
scalar lie deeper than their collection. -/
def scan (flow : Bool) (indent : Int) (c : Cursor) : Text × Cursor × Bool :=
  let (text, rest, newLine) := body flow (indent + 1) (c.rest.length + 1) c [] [] false
  (.ofChars text, rest, newLine)

/-- Indicators that begin no plain scalar. -/
def indicators : List Char := "-?:,[]\x7b\x7d#&*!|>'\"%@\x60".toList

/-- Whether a plain scalar may begin here. -/
def starts (flow : Bool) (c : Cursor) : Bool :=
  match c.peek? with
  | none => false
  | some ch =>
    (!isGap (some ch) && !indicators.contains ch) ||
      (!isGap (c.peekAt? 1) && (ch == '-' || (!flow && (ch == '?' || ch == ':'))))

end DualImage.Yaml.Plain
