import DualImage.Workspace.Named
import DualImage.Workspace.World

/-! When an output has to be made again, and writing only what differs. -/
namespace DualImage

/-- Why an output is out of date. -/
inductive Staleness where
  | noOutput (output : Path)
  | newerInput (input output : Path)
  deriving Repr, DecidableEq

def Staleness.remark : Staleness → Text
  | noOutput output => output.toText ++ " does not exist"
  | newerInput input output => input.toText ++ " is newer than " ++ output.toText

namespace Disk

def outputTime? (d : Disk) (p : Path) : Except Failure (Option Int) :=
  match d.entry p with
  | .ok e => pure (some e.time)
  | .error .missing => pure none
  | .error .unusable => throw .badValue
  | .error fault => throw (.unreadableOutput p fault)

def inputTime (d : Disk) (p : Path) : Except Failure Int :=
  match d.entry p with
  | .ok e => pure e.time
  | .error .unusable => throw .badValue
  | .error fault => throw (.unreadableInput p fault)

/-- The first input that is newer than the given time. Those after it are not looked at. -/
def newerThan? (d : Disk) (time : Int) : List Path → Except Failure (Option Path)
  | [] => pure none
  | p :: rest => do if time < (← d.inputTime p) then return some p else d.newerThan? time rest

/-- Nothing for an output that is as new as all its inputs. Inputs of a missing output are not
looked at. -/
def staleness? (d : Disk) (output : Path) (inputs : List Path) :
    Except Failure (Option Staleness) := do
  match ← d.outputTime? output with
  | none => return some (.noOutput output)
  | some time => return (← d.newerThan? time inputs).map (.newerInput · output)

/-- How a text is written to a certain file. -/
abbrev Writer := String → Option Int → Except FileFault Disk

/-- Whether a text was written, or why not, and the disk afterwards. A file is emptied before it
shows that a text with surrogates cannot be stored. -/
def overwrite (d : Disk) (text : Text) (write : Writer) : Except FileFault Bool × Disk :=
  let (s, time, outcome) := match text.string? with
    | some s => (s, none, .ok true)
    | none => ("", some d.systemTime, .error .unusable)
  match write s time with
  | .ok d => (outcome, d)
  | .error fault => (.error fault, d)

/-- Leaves a file alone whose old text, read with unified line breaks, is the same. -/
def replace (d : Disk) (old : Except FileFault String) (text : Text) (write : Writer) :
    Except FileFault Bool × Disk :=
  match old with
  | .ok old =>
    if Text.ofChars (Text.unifyBreaks old.toList) = text then (.ok false, d)
    else d.overwrite text write
  | .error .missing => d.overwrite text write
  | .error fault => (.error fault, d)

/-- Writes a text unless the file holds it already. Says whether it wrote. -/
def writeIfChanged (d : Disk) (p : Path) (text : Text) : Except FileFault Bool × Disk :=
  d.replace (d.read p) text (d.write p)

/-- The same for a file that is known by its written path. -/
def writeNamedIfChanged (d : Disk) (written text : Text) : Except FileFault Bool × Disk :=
  d.replace (d.readNamed written) text (d.writeNamed written)

end Disk

namespace World

def isStale (output : Path) (inputs : List Path) : Action Bool := do
  match (← get).disk.staleness? output inputs with
  | .ok none => return false
  | .ok (some s) =>
    say Console.verbose s.remark
    return true
  | .error f => throw f

/-- The loader image depends on the linked loader and on all archives. -/
def isLoaderImageStale (image loader : Path) (archives : List Path) : Action Bool :=
  isStale image (loader :: archives)

def writeIfChanged (p : Path) (text : Text) : Action Bool := attempt (·.writeIfChanged p text)

def writeNamedIfChanged (written text : Text) : Action Bool :=
  attempt (·.writeNamedIfChanged written text)

end World
end DualImage
