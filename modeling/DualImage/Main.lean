import DualImage.CommandLine.Command

/-! The program. It rehearses a command on the files below the current directory: no tool is
started and nothing is written. A tool is taken to succeed, and a dump to show the text of the file
that has the artifact's name with `.lst` behind it. -/
namespace DualImage.Rehearsal

/-- The entries of a directory, with all that lies below them. A file that is no text is empty. -/
partial def readEntries (place : Place) (entries : List IO.FS.DirEntry) :
    IO (List (Place × Entry)) := do
  let found ← entries.mapM fun e => do
    let info ← e.path.metadata
    let time := info.modified.sec
    let below := place ++ [Text.ofString e.fileName]
    if info.type == .dir then
      return (below, .directory time) :: (← readEntries below (← e.path.readDir).toList)
    else
      let text ← try IO.FS.readFile e.path catch _ => pure ""
      return [(below, Entry.file time text)]
  return found.flatten

/-- The listings among the files, each under the path of its artifact. -/
def listings (d : Disk) : List (Text × String) :=
  let ending : Text := ".lst"
  d.listing.filterMap fun (path, _, text) =>
    if path.endsWith ending then
      some (⟨path.codes.take (path.codes.length - ending.codes.length)⟩, text)
    else none

/-- Clock and system stand at the newest time. -/
def readDisk : IO Disk := do
  let here ← IO.currentDir
  let place := (here.components.filter (· != "")).map Text.ofString
  let found ← readEntries place (← here.readDir).toList
  let clock := found.foldl (fun clock (_, e) => max clock e.time) 0
  let start := Disk.empty place clock clock
  return { start with files := ⟨start.files.entries ++ found⟩ }

def readWorld : IO World := do
  let disk ← readDisk
  return {
    disk
    tools := ⟨[], listings disk⟩
    buildDirVariable := ← IO.getEnv "SPLITIMAGE_BUILD_DIR"
    console := .ofVerbosity Console.normal
    commands := [] }

end DualImage.Rehearsal

open DualImage in
def main (words : List String) : IO UInt32 := do
  let (outcome, w) := CommandLine.run words (← Rehearsal.readWorld)
  (← IO.getStdout).putStr w.console.out.toString
  (← IO.getStderr).putStr w.console.err.toString
  match outcome with
  | .usage =>
    (← IO.getStderr).putStrLn "Usage: build TARGET_FILE | symbols ARTIFACT"
    return 2
  | .exited code => return code.toUInt32
  | .failed _ =>
    (← IO.getStderr).putStrLn "The command met a value of a wrong kind, or a path it cannot use."
    return 1
