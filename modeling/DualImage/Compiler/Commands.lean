import DualImage.ObjectName
import DualImage.Target.Basic
import DualImage.Workspace.Staleness

/-! Compiling, archiving, linking and editing with the tools of a compiler. Compiling, archiving
and linking run a command only for an output that is out of date. -/
namespace DualImage.Compiler
open World

def tool (c : Compiler) (name : String) : Except Failure Text :=
  return (← c.toolPrefix.shown) ++ name

def runTool (c : Compiler) (name : String) (arguments : Command) : Action (Option String) := do
  run ((← lift (c.tool name)) :: arguments)

def objectPaths (sources : List Path) (objectDir : Path) : Except Failure (List Path) :=
  match objectPaths? sources objectDir with
  | some objects => pure objects
  | none => throw .badValue

/-- Flags come in the order of their scope: compiler, package, then directories and features. -/
def compileCommand (c : Compiler) (package : Package) (defines : List Document)
    (source object : Path) : Except Failure Command := do
  let gcc ← c.tool "gcc"
  let features ← defines.mapM (·.shown)
  words ([.text gcc, .text "-c"] ++ c.compileFlags ++ package.flags ++
    package.includeDirs.map (fun dir => .text ("-I" ++ dir.toText)) ++
    features.map (fun s => .text ("-D" ++ s)) ++
    [.text "-o", .text object.toText, .text source.toText])

def compileSource (c : Compiler) (package : Package) (defines : List Document)
    (source object : Path) : Action Unit := do
  if ← isStale object [source] then
    say Console.normal ("Compiling " ++ source.name)
    discard <| run (← lift (c.compileCommand package defines source object))

def compile (c : Compiler) (package : Package) (objectDir : Path) (defines : List Document) :
    Action (List Path) := do
  ensureDirectories objectDir
  let objects ← lift (objectPaths package.sources objectDir)
  (package.sources.zip objects).forM fun (source, object) =>
    c.compileSource package defines source object
  return objects

/-- An old archive goes first, so that no member of it stays. -/
def archive (c : Compiler) (objects : List Path) (path : Path) : Action Path := do
  ensureDirectories path.parent
  if ← isStale path objects then
    if (← get).disk.entry path |>.isOk then change (·.delete path)
    say Console.normal ("Archiving " ++ path.name)
    discard <| c.runTool "ar" ("rcs" :: path.toText :: objects.map Path.toText)
  return path

def linkCommand (c : Compiler) (archives : List Path) (script output : Path)
    (symbolFiles : List Path) : Except Failure Command := do
  let gcc ← c.tool "gcc"
  words ([.text gcc, .text "-o", .text output.toText] ++ c.linkFlags ++
    [.text ("-T" ++ script.toText), .text ("-Wl,-Map=" ++ output.toText ++ ".map")] ++
    symbolFiles.map (fun p => .text ("-Wl,--just-symbols=" ++ p.toText)) ++
    [.text "-Wl,--start-group"] ++ archives.map (fun p => .text p.toText) ++
    [.text "-Wl,--end-group"])

/-- The same place under a longer name. -/
def beside (p : Path) (ending : String) : Except Failure Path :=
  match p.withName? (p.name ++ ending) with
  | some p => pure p
  | none => throw .badValue

/-- The text of the command is kept beside the output and counts among its inputs, so another
command makes the output stale. -/
def link (c : Compiler) (archives : List Path) (script output : Path) (symbolFiles : List Path) :
    Action Path := do
  ensureDirectories output.parent
  let record ← lift (beside output ".cmd")
  let command ← lift (c.linkCommand archives script output symbolFiles)
  discard <| writeIfChanged record (command.text ++ "\n")
  if ← isStale output (archives ++ symbolFiles ++ [script, record]) then
    say Console.normal ("Linking " ++ output.name)
    discard <| run command
  else
    say Console.verbose (output.name ++ " is up to date")
  return output

def dumpSymbols (c : Compiler) (artifact : Path) : Action (Option String) :=
  c.runTool "objdump" ["-t", artifact.toText]

def keepFile (image : Path) : Except Failure Path := beside image ".keep"

/-- Copies a binary in which only the given names stay global. -/
def copyKeeping (c : Compiler) (source : Path) (keep : List String) (target : Path) :
    Action Path := do
  let list ← lift (keepFile target)
  discard <| writeIfChanged list (String.join ((Text.sorted keep).map (· ++ "\n")))
  discard <| c.runTool "objcopy" ["--keep-global-symbols=" ++ list.toText, source.toText,
    target.toText]
  return target

def renameSymbols (c : Compiler) (artifact : Path) (names : List String) (ending : String) :
    Action Unit :=
  let renamed (name : String) : Command := ["--redefine-sym", name ++ "=" ++ name ++ ending]
  discard <| c.runTool "objcopy" ((Text.sorted names).flatMap renamed ++ [artifact.toText])

def weakenSymbol (c : Compiler) (artifact : Path) (name : String) : Action Unit :=
  discard <| c.runTool "objcopy" ["--weaken-symbol=" ++ name, artifact.toText]

def removeSymbol (c : Compiler) (artifact : Path) (name : String) : Action Unit :=
  discard <| c.runTool "objcopy" ["--strip-symbol=" ++ name, artifact.toText]

def renameSection (c : Compiler) (artifact : Path) (old new : String) : Action Unit :=
  discard <| c.runTool "objcopy" ["--rename-section", old ++ "=" ++ new, artifact.toText]

end DualImage.Compiler
