import DualImage.Document.Basic
import DualImage.Failure
import DualImage.Listing.Table
import DualImage.SymbolTable.Merge
import DualImage.Workspace.Console
import DualImage.Workspace.Tools

/-! Actions on a workspace. Whatever an action did before it failed stays done. -/
namespace DualImage

/-- Commands are those that were started, in order. -/
structure World where
  disk : Disk
  tools : Tools
  buildDirVariable : Option String
  console : Console
  commands : List Command
  deriving Repr, Inhabited

abbrev Action := EStateM Failure World

namespace World

def say (level : Int) (message : Text) : Action Unit :=
  modify fun w => { w with console := w.console.say level message }

def sayAll (level : Int) (messages : List Text) : Action Unit := messages.forM (say level)

/-- Takes over the disk that a step leaves, whether it succeeded or not. -/
def attempt {α : Type} (step : Disk → Except FileFault α × Disk) : Action α := do
  let (outcome, disk) := step (← get).disk
  modify fun w => { w with disk }
  match outcome with
  | .ok a => return a
  | .error fault => throw (.ofFault fault)

/-- A step that changes nothing unless it succeeds. -/
def change (step : Disk → Except FileFault Disk) : Action Unit :=
  attempt fun d => match step d with
    | .ok d => (.ok (), d)
    | .error fault => (.error fault, d)

def ensureDirectories (p : Path) : Action Unit := attempt (·.ensureDirectories p)

/-- Makes what is missing above the file as well. -/
def touch (p : Path) (time : Option Int) : Action Unit := do
  ensureDirectories p.parent
  change (·.touch p time)

def write (p : Path) (text : String) (time : Option Int) : Action Unit := do
  ensureDirectories p.parent
  change (·.write p text time)

/-- A fault of the file system that a tool meets makes its command fail without a status. -/
def failingAs (c : Command) (p : Path) (a : Action Unit) : Action Unit := fun w =>
  match a w with
  | .error (.files fault) w => .error (.command c none (fault.describe p.toText)) w
  | r => r

/-- What a successful tool does to its output. -/
def renew (c : Command) (p : Path) : Action Unit := do
  failingAs c p.parent (ensureDirectories p.parent)
  failingAs c p (change (·.touch p none))

/-- Starts a command and waits for its end. A command without a rule succeeds, and so does one
whose rule says so, but only the former writes anything. -/
def run (c : Command) : Action (Option String) := do
  say Console.verbose c.text
  modify fun w => { w with commands := w.commands ++ [c] }
  let tools := (← get).tools
  match tools.rule? c with
  | none =>
    if let some p := c.output? then renew c p
    return some (c.shows tools.listings)
  | some rule =>
    if rule.absent then throw (.command c none (FileFault.missing.describe c.tool))
    if rule.status != 0 then
      throw (.command c (some rule.status) (rule.stdout.getD "" ++ rule.stderr.getD ""))
    return rule.stdout

/-- The words of a command, which have to be text. -/
def words (ds : List Document) : Except Failure Command :=
  ds.mapM fun d => match d.text? with
    | some s => pure s
    | none => throw .wrongKind

def lift {α : Type} (r : Except Failure α) : Action α :=
  match r with
  | .ok a => pure a
  | .error f => throw f

/-- The table of a listing, with a remark on each line that is kept or cannot be read. -/
def readListing (o : Listing.Origin) (text : Option String) : Action SymbolTable := do
  match text with
  | none => throw .wrongKind
  | some text =>
    sayAll Console.verbose (o.remarks text)
    return o.table text

/-- Says on which symbols two tables differ without a conflict, and gives the comparison. -/
def compare (packagesCount : Bool) (a b : SymbolTable) : Action SymbolTable.Comparison := do
  let c := a.compare packagesCount b
  sayAll Console.verbose (c.mismatches.map (·.difference))
  return c

def refuseConflicts (pairs : List SymbolPair) : Action Unit := do
  if !pairs.isEmpty then
    sayAll Console.quiet (pairs.map fun p => "Global data symbol conflict: " ++ p.describe)
    throw (.conflicts pairs)

/-- Says which locals a merge dropped, and fails when it ended with a clash. -/
def settle (m : SymbolTable.Merge) : Action SymbolTable := do
  sayAll Console.verbose (m.dropped.map (·.localRemark))
  match m.clash with
  | none => return m.target
  | some p =>
    say Console.quiet p.clashRemark
    throw (.clash p.name p.first.package p.second.package)

end World
end DualImage
