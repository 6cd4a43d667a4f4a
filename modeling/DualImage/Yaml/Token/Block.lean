import DualImage.Text.Basic
import DualImage.Yaml.Cursor

/-! Literal and folded block scalars. -/
namespace DualImage.Yaml.Block

/-- What happens to the breaks at the end of a block. -/
inductive Chomping where
  | strip
  | clip
  | keep
  deriving DecidableEq, Repr

def chomping? : Char → Option Chomping
  | '+' => some .keep
  | '-' => some .strip
  | _ => none

/-- A step of indentation from one to nine, in front of the chomping or behind it. -/
def indicators (c : Cursor) : Except Fault (Chomping × Option Nat × Cursor) :=
  let chomping := c.peek?.bind chomping?
  let c := if chomping.isSome then c.next else c
  let step := (c.peek?.filter (·.isDigit)).map fun d => d.toNat - '0'.toNat
  let c := if step.isSome then c.next else c
  let after := if chomping.isSome || step.isNone then none else c.peek?.bind chomping?
  let c := if after.isSome then c.next else c
  if step == some 0 || !isSpaceOrEnd c.peek? then .error .malformed
  else .ok ((chomping.orElse fun _ => after).getD .clip, step, c)

/-- Up to `indent` columns of spaces, on this line and on the empty ones after it. -/
def emptyLines (indent : Nat) : Nat → Cursor → List Char × Cursor
  | 0, c => ([], c)
  | fuel + 1, c =>
    let spaces := (c.rest.takeWhile (· == ' ')).length
    let c := c.skip (min spaces (indent - c.column))
    match c.break? with
    | some ch =>
      let (more, c) := emptyLines indent fuel c.next
      (ch :: more, c)
    | none => ([], c)

/-- Leading empty lines, and the largest indentation seen on them and on the first line. -/
def leadingLines : Nat → Cursor → List Char × Nat × Cursor
  | 0, c => ([], 0, c)
  | fuel + 1, c =>
    let c := c.skipWhile (· == ' ')
    match c.break? with
    | some ch =>
      let (more, deepest, rest) := leadingLines fuel c.next
      (ch :: more, max c.column deepest, rest)
    | none => ([], c.column, c)

/-- Lines of the block. `last` is the break after the line before, `more` the empty lines. -/
def body (folded : Bool) (indent : Nat) : Nat → Cursor → List Char → List Char → List Char →
    List Char × List Char × List Char × Cursor
  | 0, c, done, last, more => (done, last, more, c)
  | fuel + 1, c, done, last, more =>
    if c.column != indent || c.rest.isEmpty then (done, last, more, c)
    else
      let done := done ++ more
      let flush := !c.peek?.any isBlank
      let line := c.rest.takeWhile (!isBreak ·)
      let c := c.skip line.length
      let last := c.break?.toList
      let (more, c) := emptyLines indent (c.rest.length + 1) (if c.seesBreak then c.next else c)
      let done := done ++ line
      if c.column == indent && !c.rest.isEmpty then
        let joined :=
          if folded && last == ['\n'] && flush && !c.peek?.any isBlank then
            if more.isEmpty then [' '] else []
          else last
        body folded indent fuel c (done ++ joined) last more
      else (done, last, more, c)

/-- A scalar whose indicator comes next, inside a collection of the given indentation. -/
def scan (folded : Bool) (indent : Int) (c : Cursor) : Except Fault (Text × Cursor) := do
  let (chomping, step, c) ← indicators c.next
  let c ← c.endLine?
  let least := max 1 (indent + 1).toNat
  let fuel := c.rest.length + 1
  let (depth, more, c) := match step with
    | none =>
      let (more, deepest, c) := leadingLines fuel c
      (max least deepest, more, c)
    | some n =>
      let depth := least + n - 1
      let (more, c) := emptyLines depth fuel c
      (depth, more, c)
  let (text, last, more, c) := body folded depth fuel c [] [] more
  let ending := match chomping with
    | .strip => []
    | .clip => last
    | .keep => last ++ more
  return (.ofChars (text ++ ending), c)

end DualImage.Yaml.Block
