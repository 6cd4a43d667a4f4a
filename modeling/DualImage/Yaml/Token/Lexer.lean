import DualImage.Text.Numeral
import DualImage.Yaml.Token.Basic
import DualImage.Yaml.Token.Block
import DualImage.Yaml.Token.Plain
import DualImage.Yaml.Token.Uri

/-! Tokens of a text. A key is known as one only at its colon, so the place of every token that may
be a key is remembered. -/
namespace DualImage.Yaml

/-- A token that may turn out to be a key. A required one has to. -/
structure PossibleKey where
  position : Nat
  required : Bool
  index : Nat
  line : Nat
  column : Nat
  deriving Repr, Inhabited

/-- Possible keys are listed by the depth of brackets, one for each depth. -/
structure Lexer where
  cursor : Cursor
  tokens : Array Token
  indent : Int
  outer : List Int
  depth : Nat
  keyAllowed : Bool
  keys : List (Nat × PossibleKey)
  deriving Repr, Inhabited

namespace Lexer

def ofChars (cs : List Char) : Lexer :=
  { cursor := .ofChars cs, tokens := #[], indent := -1, outer := [], depth := 0
    keyAllowed := true, keys := [] }

def inFlow (l : Lexer) : Bool := l.depth != 0

def push (l : Lexer) (t : Token) : Lexer := { l with tokens := l.tokens.push t }

def insert (l : Lexer) (position : Nat) (t : Token) : Lexer :=
  { l with tokens := (l.tokens.toList.take position ++ t :: l.tokens.toList.drop position).toArray }

/-- A key stands on one line and is at most so many characters away from its colon. -/
def keyReach : Nat := 1024

def isStale (l : Lexer) (k : PossibleKey) : Bool :=
  k.line != l.cursor.line || l.cursor.index - k.index > keyReach

def dropStaleKeys (l : Lexer) : Except Fault Lexer :=
  if l.keys.any fun (_, k) => l.isStale k && k.required then .error .malformed
  else .ok { l with keys := l.keys.filter fun (_, k) => !l.isStale k }

def forgetKey (l : Lexer) : Except Fault Lexer :=
  if l.keys.any fun (depth, k) => depth == l.depth && k.required then .error .malformed
  else .ok { l with keys := l.keys.filter (·.1 != l.depth) }

/-- The next token may be a key. -/
def saveKey (l : Lexer) : Except Fault Lexer :=
  if l.keyAllowed then do
    let l ← l.forgetKey
    let key : PossibleKey :=
      { position := l.tokens.size
        required := !l.inFlow && l.indent == l.cursor.column
        index := l.cursor.index
        line := l.cursor.line
        column := l.cursor.column }
    return { l with keys := (l.depth, key) :: l.keys }
  else .ok l

/-- Ends the block collections that lie deeper than a column. -/
def closeTo (column : Int) : List Int → Lexer → Lexer
  | [], l => l
  | indent :: rest, l =>
    if l.inFlow || l.indent ≤ column then l
    else closeTo column rest { (l.push .blockEnd) with indent, outer := rest }

def close (l : Lexer) (column : Int) : Lexer := closeTo column l.outer l

/-- Whether a block collection begins at a column, and the lexer inside it. -/
def opens (l : Lexer) (column : Nat) : Bool := l.indent < column

def enter (l : Lexer) (column : Nat) : Lexer :=
  { l with outer := l.indent :: l.outer, indent := column }

def skipGap : Nat → Lexer → Lexer
  | 0, l => l
  | fuel + 1, l =>
    let c := l.cursor.skipWhile (· == ' ')
    let c := if c.sees '#' then c.skipLine else c
    if c.seesBreak then
      skipGap fuel { l with cursor := c.next, keyAllowed := l.keyAllowed || !l.inFlow }
    else { l with cursor := c }

/-- Spaces, breaks and comments before the next token. -/
def skipToToken (l : Lexer) : Lexer :=
  let l := if l.cursor.index == 0 && l.cursor.sees byteOrderMark then
    { l with cursor := l.cursor.next } else l
  skipGap (l.cursor.rest.length + 1) l

def isWordChar (c : Char) : Bool := (c.isAlphanum) || c == '-' || c == '_'

def marker (l : Lexer) (t : Token) : Except Fault Lexer := do
  let l ← (l.close (-1)).forgetKey
  return { (l.push t) with cursor := l.cursor.skip 3, keyAllowed := false }

def flowStart (l : Lexer) (t : Token) : Except Fault Lexer := do
  let l ← l.saveKey
  return { (l.push t) with cursor := l.cursor.next, depth := l.depth + 1, keyAllowed := true }

/-- A bracket that closes nothing is a fault. -/
def flowEnd (l : Lexer) (t : Token) : Except Fault Lexer := do
  let l ← l.forgetKey
  if !l.inFlow then throw .malformed
  return { (l.push t) with cursor := l.cursor.next, depth := l.depth - 1, keyAllowed := false }

def flowEntry (l : Lexer) : Except Fault Lexer := do
  let l ← l.forgetKey
  return { (l.push .flowEntry) with cursor := l.cursor.next, keyAllowed := true }

def openAt (l : Lexer) (t : Token) : Except Fault Lexer :=
  if l.inFlow then .ok l
  else if !l.keyAllowed then .error .malformed
  else if l.opens l.cursor.column then .ok ((l.enter l.cursor.column).push t)
  else .ok l

def blockEntry (l : Lexer) : Except Fault Lexer := do
  let l ← (← l.openAt .blockListStart).forgetKey
  return { (l.push .blockEntry) with cursor := l.cursor.next, keyAllowed := true }

def key (l : Lexer) : Except Fault Lexer := do
  let l ← (← l.openAt .blockMappingStart).forgetKey
  return { (l.push .key) with cursor := l.cursor.next, keyAllowed := !l.inFlow }

/-- The token of the remembered key gets its mark, and a mapping may begin in front of it. -/
def value (l : Lexer) : Except Fault Lexer :=
  match l.keys.lookup l.depth with
  | some k =>
    let l := { l with keys := l.keys.filter (·.1 != l.depth) }.insert k.position .key
    let l := if !l.inFlow && l.opens k.column then
      (l.enter k.column).insert k.position .blockMappingStart else l
    .ok { (l.push .value) with cursor := l.cursor.next, keyAllowed := false }
  | none => do
    let l ← l.openAt .blockMappingStart
    let l ← { l with keyAllowed := !l.inFlow }.forgetKey
    return { (l.push .value) with cursor := l.cursor.next }

/-- A name after an ampersand or an asterisk. -/
def named (l : Lexer) (token : String → Token) : Except Fault Lexer := do
  let l ← l.saveKey
  let c := l.cursor.next
  let name := c.rest.takeWhile isWordChar
  let c := c.skip name.length
  if name.isEmpty then throw .malformed
  if !(isGap c.peek? || c.peek?.any ("?:,]\x7d%@\x60".toList.contains ·)) then throw .malformed
  return { (l.push (token (String.ofList name))) with cursor := c, keyAllowed := false }

/-- An exclamation mark, and a word with another mark behind it if there is one. -/
def handle (c : Cursor) : Except Fault (String × Cursor) := do
  let name := c.next.rest.takeWhile isWordChar
  let c := c.next.skip name.length
  if c.sees '!' then return (String.ofList ('!' :: name ++ ['!']), c.next)
  else if name.isEmpty && c.sees ' ' then return ("!", c)
  else throw .malformed

/-- Whether a word up to the next space holds an exclamation mark. -/
def hasHandle (c : Cursor) : Bool :=
  (c.rest.takeWhile fun ch => ch != ' ' && !isBreak ch).contains '!'

def tagParts (c : Cursor) : Except Fault (Option String × String × Cursor) := do
  if c.peekAt? 1 == some '<' then
    let (suffix, c) ← Uri.scan (c.skip 2)
    if c.sees '>' then return (none, suffix, c.next) else throw .malformed
  else if isGap (c.peekAt? 1) then return (none, "!", c.next)
  else if hasHandle c.next then
    let (name, c) ← handle c
    let (suffix, c) ← Uri.scan c
    return (some name, suffix, c)
  else
    let (suffix, c) ← Uri.scan c.next
    return (some "!", suffix, c)

def tag (l : Lexer) : Except Fault Lexer := do
  let l ← l.saveKey
  let (handle, suffix, c) ← tagParts l.cursor
  if !isSpaceOrEnd c.peek? then throw .malformed
  return { (l.push (.tag handle suffix)) with cursor := c, keyAllowed := false }

/-- The digits end only where another character or the end of the text comes. -/
def number (c : Cursor) : Except Fault (Nat × Cursor) :=
  let digits := c.rest.takeWhile (·.isDigit)
  let c := c.skip digits.length
  if digits.isEmpty || c.isBlocked then .error .malformed
  else match Text.Numeral.value? 10 digits with
    | some n => .ok (n, c)
    | none => .error .badNumber

/-- The contents of a line that begins with a percent sign. -/
def directiveBody (c : Cursor) : Except Fault (Token × Cursor) := do
  let name := c.rest.takeWhile isWordChar
  let c := c.skip name.length
  if name.isEmpty || !isSpaceOrEnd c.peek? then throw .malformed
  match String.ofList name with
  | "YAML" =>
    let (major, c) ← number (c.skipWhile (· == ' '))
    if !c.sees '.' then throw .malformed
    let (_, c) ← number c.next
    if !isSpaceOrEnd c.peek? then throw .malformed
    return (.version major, c)
  | "TAG" =>
    let c := c.skipWhile (· == ' ')
    if !c.sees '!' then throw .malformed
    let (name, c) ← handle c
    if !c.sees ' ' then throw .malformed
    let (stem, c) ← Uri.scan (c.skipWhile (· == ' '))
    if !isSpaceOrEnd c.peek? then throw .malformed
    return (.handle name stem, c)
  | _ => return (.directive, c.skipLine)

def directive (l : Lexer) : Except Fault Lexer := do
  let l ← (l.close (-1)).forgetKey
  let (t, c) ← directiveBody l.cursor.next
  return { (l.push t) with cursor := ← c.endLine?, keyAllowed := false }

def blockScalar (l : Lexer) (folded : Bool) : Except Fault Lexer := do
  let l ← { l with keyAllowed := true }.forgetKey
  let (text, c) ← Block.scan folded l.indent l.cursor
  return { (l.push (.scalar text false)) with cursor := c }

def quotedScalar (l : Lexer) (double : Bool) : Except Fault Lexer := do
  let l ← l.saveKey
  let (text, c) ← Quoted.scan double l.cursor
  return { (l.push (.scalar text false)) with cursor := c, keyAllowed := false }

def plainScalar (l : Lexer) : Except Fault Lexer := do
  let l ← l.saveKey
  let (text, c, newLine) := Plain.scan l.inFlow l.indent l.cursor
  return { (l.push (.scalar text true)) with cursor := c, keyAllowed := newLine }

/-- The token that begins with the next character, which is at the given one. -/
def token (l : Lexer) (ch : Char) : Except Fault Lexer :=
  let gap := isGap (l.cursor.peekAt? 1)
  let lineStart := l.cursor.column == 0
  if ch == '%' && lineStart then l.directive
  else if ch == '-' && lineStart && l.cursor.seesMarker then l.marker .documentStart
  else if ch == '.' && lineStart && l.cursor.seesMarker then l.marker .documentEnd
  else if ch == '[' then l.flowStart .flowListStart
  else if ch == '\x7b' then l.flowStart .flowMappingStart
  else if ch == ']' then l.flowEnd .flowListEnd
  else if ch == '\x7d' then l.flowEnd .flowMappingEnd
  else if ch == ',' then l.flowEntry
  else if ch == '-' && gap then l.blockEntry
  else if ch == '?' && (l.inFlow || gap) then l.key
  else if ch == ':' && (l.inFlow || gap) then l.value
  else if ch == '*' then l.named .alias
  else if ch == '&' then l.named .anchor
  else if ch == '!' then l.tag
  else if ch == '|' && !l.inFlow then l.blockScalar false
  else if ch == '>' && !l.inFlow then l.blockScalar true
  else if ch == '\'' then l.quotedScalar false
  else if ch == '"' then l.quotedScalar true
  else if Plain.starts l.inFlow l.cursor then l.plainScalar
  else .error .malformed

/-- The next token with those that its place brings, or the end of the stream. -/
def step (l : Lexer) : Except Fault Lexer := do
  let l ← l.skipToToken.dropStaleKeys
  let l := l.close l.cursor.column
  match l.cursor.peek? with
  | none =>
    if l.cursor.isBlocked then throw .malformed
    return (← (l.close (-1)).forgetKey).push .streamEnd
  | some ch => l.token ch

/-- The tokens in front of all that may still be keys. Nothing comes between these. -/
def settled (l : Lexer) : List Token :=
  let keys := l.keys.filter fun (_, k) => !l.isStale k
  l.tokens.toList.take (keys.foldl (fun n (_, k) => min n k.position) l.tokens.size)

/-- Tokens up to the end of the stream, or up to a fault. -/
def run : Nat → Lexer → List Token × Option Fault
  | 0, l => (l.settled, some .malformed)
  | fuel + 1, l =>
    match l.step with
    | .error fault => (l.settled, some fault)
    | .ok l => if l.tokens.back? == some .streamEnd then (l.tokens.toList, none) else run fuel l

end Lexer

/-- The tokens of a text. Those in front of a fault come with it, since a fault of their own goes
before. Every token takes at least one character, so the loop ends before its fuel does. -/
def Token.ofChars (cs : List Char) : List Token × Option Fault :=
  Lexer.run (cs.length + 1) (.ofChars cs)

end DualImage.Yaml
