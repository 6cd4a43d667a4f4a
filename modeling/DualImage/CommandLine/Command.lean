import DualImage.Build
import DualImage.CommandLine.Arguments
import DualImage.Target.File

/-! The commands: building a target, and showing the symbols of an artifact. -/
namespace DualImage.CommandLine
open World

/-- What a command line asks for. Paths are still as they were written. -/
inductive Request where
  | build (target : String) (buildDir : Option String) (verbosity : Int)
  | symbols (artifact : String) (toolPrefix : String) (package : Option String) (memoryOnly : Bool)
  deriving Repr, DecidableEq

/-- How a command ended: not understood, with an exit code, or with an unexplained failure. -/
inductive Outcome where
  | usage
  | exited (code : Nat)
  | failed (f : Failure)
  deriving Repr

def buildForms : List OptionForm :=
  [⟨"--build-dir", none, true⟩, ⟨"--verbose", some 'v', false⟩, ⟨"--quiet", some 'q', false⟩]

def symbolsForms : List OptionForm :=
  [⟨"--prefix", none, true⟩, ⟨"--package", none, true⟩, ⟨"--memory-only", none, false⟩]

/-- Verbose goes before quiet. -/
def verbosityOf (a : Arguments) : Int :=
  if a.has "--verbose" then Console.verbose
  else if a.has "--quiet" then Console.quiet
  else Console.normal

/-- Why a command is not begun: it is not understood, or a path cannot be looked at. -/
inductive Refusal where
  | usage
  | unusable
  deriving Repr, DecidableEq

def isFile (d : Disk) (written : String) : Except Refusal Bool :=
  match d.entryNamed written with
  | .ok e => pure !e.isDirectory
  | .error .unusable => throw .unusable
  | .error _ => pure false

/-- The only operand, which has to be a file. Those behind it are looked at last. -/
def operand (d : Disk) : List String → Except Refusal String
  | [] => throw .usage
  | written :: more => do
    if !(← isFile d written) || !more.isEmpty then throw .usage
    return written

/-- A build directory, which must not be a file, is looked at before the operand. -/
def buildDirectory (d : Disk) (a : Arguments) : Except Refusal (Option String) := do
  let some written := a.value? "--build-dir" | return none
  if ← isFile d written then throw .usage
  return some written

/-- Two dashes may stand before the command. -/
def Request.ofWords (d : Disk) : List String → Except Refusal Request
  | "--" :: command :: words => ofCommand command words
  | command :: words => ofCommand command words
  | [] => throw .usage
where
  read (forms : List OptionForm) (words : List String) : Except Refusal Arguments :=
    match Arguments.read? forms words with
    | some a => pure a
    | none => throw .usage
  ofCommand (command : String) (words : List String) : Except Refusal Request :=
    match command with
    | "build" => do
      let a ← read buildForms words
      let buildDir ← buildDirectory d a
      return .build (← operand d a.operands) buildDir (verbosityOf a)
    | "symbols" => do
      let a ← read symbolsForms words
      return .symbols (← operand d a.operands) ((a.value? "--prefix").getD "")
        (a.value? "--package") (a.has "--memory-only")
    | _ => throw .usage

def print (line : Text) : Action Unit :=
  modify fun w => { w with console := w.console.print line }

def buildTarget (target : Path) (buildDir : Option Path) : Action Unit := do
  let t ← loadTarget target buildDir
  let r ← Build.ofTarget t
  if let (some loader, some image) := (r.loader, r.loaderImage) then
    print ("Loader: " ++ loader.toText)
    print ("ROM ELF: " ++ image.toText ++ " (" ++ toString r.exported.size ++ " symbols)")
  print ("App: " ++ r.application.toText)

/-- An archive's symbols belong to the package of its name, unless another is given. -/
def provenance (artifact : Path) (package : Option Text) : Text :=
  package.getD
    (if artifact.suffix == Symbol.archiveSuffix then artifact.stem else Symbol.binaryPackage)

def showSymbols (artifact : Path) (toolPrefix : Text) (package : Option Text)
    (memoryOnly : Bool) : Action Unit := do
  let text ← Compiler.dumpSymbols ⟨.text toolPrefix, [], []⟩ artifact
  let table ← readListing ⟨provenance artifact package, artifact.suffix, memoryOnly⟩ text
  sayAll Console.quiet (table.report ("Dumping symbols in file: " ++ artifact.toText))

def Request.action : Request → Action Unit
  | .build target buildDir verbosity => do
    modify fun w => { w with console := { w.console with verbosity } }
    buildTarget (.ofText target) (buildDir.map fun dir => .ofText dir)
  | .symbols artifact toolPrefix package memoryOnly =>
    showSymbols (.ofText artifact) toolPrefix (package.map .ofString) memoryOnly

/-- An explained failure is shown in red and ends the command with code one. -/
def report (w : World) (f : Failure) : Outcome × World :=
  match f.message? with
  | some message =>
    (.exited 1, { w with console := w.console.red ("Error: " ++ message) "\n" })
  | none => (.failed f, w)

def run (words : List String) (w : World) : Outcome × World :=
  match Request.ofWords w.disk words with
  | .error .usage => (.usage, w)
  | .error .unusable => (.failed .badValue, w)
  | .ok r => match r.action w with
    | .ok _ w => (.exited 0, w)
    | .error f w => report w f

end DualImage.CommandLine
