import DualImage.Target.Basic
import DualImage.Text.Piece

/-! Reading a target from the contents of its file. -/
namespace DualImage

namespace Document

/-- The items of a list, the characters of a text, the numbers of bytes or the keys of a mapping.
What is not given has no items, and a number or truth value that is given has none to offer. -/
def items (d : Document) : Except Failure (List Document) :=
  if d.isGiven then
    match d.view with
    | .list items => pure items
    | .text t => pure (t.codes.map fun c => text ⟨[c]⟩)
    | .bytes bs => pure (bs.map (integer ·.toNat))
    | .mapping entries => pure (entries.map (·.1))
    | _ => throw .wrongKind
  else pure []

def entries (d : Document) : Except Failure (List (Document × Document)) :=
  match d.view with
  | .mapping entries => pure entries
  | _ => throw .wrongKind

def field (entries : List (Document × Document)) (key : Text) : Document :=
  (lookup? entries key).getD null

/-- Whether a key is in a mapping, an item in a list, or a piece in a text. -/
def mentions (d : Document) (word : Text) : Except Failure Bool :=
  match d.view with
  | .mapping entries => pure (lookup? entries word).isSome
  | .list items => pure (items.any (·.isText word))
  | .text t => pure (Text.hasPiece word.codes t.codes)
  | _ => throw .wrongKind

/-- A value that has to be text. -/
def asText (d : Document) : Except Failure Text :=
  match d.text? with
  | some t => pure t
  | none => throw .wrongKind

/-- A path below a directory. -/
def pathBelow (base : Path) (d : Document) : Except Failure Path := base.child <$> d.asText

def pathsBelow (base : Path) (d : Document) : Except Failure (List Path) := do
  (← d.items).mapM (pathBelow base)

def pathBelow? (base : Path) (d : Document) : Except Failure (Option Path) :=
  if d.isGiven then some <$> d.pathBelow base else pure none

end Document

open Document (field)

def Package.ofDocument (base : Path) (d : Document) : Except Failure Package := do
  if !(← d.mentions "name") then Target.refuse .unnamedPackage d
  let entries ← d.entries
  return {
    name := field entries "name"
    sources := ← (field entries "sources").pathsBelow base
    flags := ← (field entries "cflags").items
    includeDirs := ← (field entries "include_dirs").pathsBelow base }

def Compiler.ofEntries (entries : List (Document × Document)) : Except Failure Compiler := do
  return {
    toolPrefix := (Document.lookup? entries "prefix").getD (.text "")
    compileFlags := ← (field entries "cflags").items
    linkFlags := ← (field entries "lflags").items }

/-- A compiler section that is there but empty gives a compiler without flags. -/
def Compiler.ofDocument? (d : Document) : Except Failure (Option Compiler) := do
  if d.datum == .null then return none
  let entries ← if d.isGiven then d.entries else pure []
  some <$> Compiler.ofEntries entries

def Board.ofDocument? (base : Path) (d : Document) : Except Failure (Option Board) := do
  if !d.isGiven then return none
  let entries ← d.entries
  let package ← Package.ofDocument base d
  return some {
    package
    linkerScript := ← (field entries "linker_script").pathBelow? base
    secondScript := ← (field entries "part2_linker_script").pathBelow? base
    features := ← (field entries "features").items }

def Part.ofDocument? (base : Path) (role : String) (d : Document) :
    Except Failure (Option Part) := do
  if !d.isGiven then return none
  if !(← d.mentions "name") then throw (.target (.unnamedHalf role))
  let entries ← d.entries
  let packages ← (← (field entries "packages").items).mapM (Package.ofDocument base)
  return some ⟨field entries "name", packages⟩

namespace Target

/-- The environment may name the build directory; else the target does, or it is made from the
target's name. Only the last two lie below the target's own directory. -/
def buildDirectory (base : Path) (entries : List (Document × Document))
    (environment : Option String) : Except Failure Path :=
  match environment.filter (· != "") with
  | some dir => pure (.ofText dir)
  | none => do
    let standard := "bin/" ++ (← (field entries "name").shown)
    ((Document.lookup? entries "build_dir").getD (.text standard)).pathBelow base

/-- Relative paths are seen from `base`. A build directory that is given goes before any other. -/
def ofDocument (base : Path) (buildDir : Option Path) (environment : Option String) (d : Document) :
    Except Failure Target := do
  let .mapping entries := d.view | throw (.target .unnamed)
  let some name := Document.lookup? entries "name" | throw (.target .unnamed)
  let compiler ← Compiler.ofDocument? (field entries "compiler")
  let board ← Board.ofDocument? base (field entries "bsp")
  let buildDir ← match buildDir with
    | some dir => pure dir
    | none => buildDirectory base entries environment
  let application ← Part.ofDocument? base "app" (field entries "app")
  let loader ← Part.ofDocument? base "loader" (field entries "loader")
  let features ← (field entries "features").items
  return { name, buildDir, compiler, board, application, loader, features }

end Target
end DualImage
