import DualImage.Text.Basic

/-! Paths of a file system: an anchor and components. Nothing here looks at the files. -/
namespace DualImage

/-- How a path starts. Two slashes, and only two, are kept apart from one. -/
inductive Anchor where
  | relative
  | root
  | doubleRoot
  deriving DecidableEq, Repr, Inhabited

namespace Anchor

def text : Anchor → Text
  | relative => ""
  | root => "/"
  | doubleRoot => "//"

def ofCodes : List CodePoint → Anchor
  | .character '/' :: .character '/' :: .character '/' :: _ => root
  | .character '/' :: .character '/' :: _ => doubleRoot
  | .character '/' :: _ => root
  | _ => relative

end Anchor

/-- The components of a path that was read hold no slash and are neither empty nor a single dot.
Two dots stay as they are. -/
structure Path where
  anchor : Anchor
  parts : List Text
  deriving DecidableEq, Repr, Inhabited

namespace Path

def ofText (t : Text) : Path :=
  ⟨Anchor.ofCodes t.codes, (t.codes.splitOn (.character '/')).filterMap fun part =>
    if part = [] ∨ part = [.character '.'] then none else some ⟨part⟩⟩

/-- The path without anchor and components is written as a dot. -/
def toText (p : Path) : Text :=
  if p.anchor = .relative ∧ p.parts = [] then "."
  else p.anchor.text ++ Text.intercalate "/" p.parts

def isAbsolute (p : Path) : Bool := p.anchor != .relative

/-- The second path seen from the first. An absolute one stands for itself. -/
def join (base p : Path) : Path :=
  if p.isAbsolute then p else ⟨base.anchor, base.parts ++ p.parts⟩

def child (base : Path) (name : Text) : Path := base.join (ofText name)

/-- An anchor alone is its own parent. -/
def parent (p : Path) : Path := ⟨p.anchor, p.parts.dropLast⟩

/-- The last component, empty where there is none. -/
def name (p : Path) : Text := p.parts.getLast?.getD ""

/-- A name cut before its last dot. A dot at either end of the name does not count. -/
def splitSuffix (name : Text) : Text × Text :=
  let back := name.codes.reverse
  let ending := back.takeWhile (· ≠ .character '.')
  match back.dropWhile (· ≠ .character '.') with
  | dot :: c :: before =>
    if ending.isEmpty then (name, "") else (⟨(c :: before).reverse⟩, ⟨dot :: ending.reverse⟩)
  | _ => (name, "")

def stem (p : Path) : Text := (splitSuffix p.name).1

def suffix (p : Path) : Text := (splitSuffix p.name).2

/-- The same directory with another last component. There is no such path where no component is. -/
def withName? (p : Path) (name : Text) : Option Path :=
  if p.parts = [] then none else some ⟨p.anchor, p.parts.dropLast ++ [name]⟩

/-- The components below `base`, when the path is there. -/
def relativeTo? (p base : Path) : Option (List Text) :=
  if p.anchor = base.anchor ∧ base.parts.isPrefixOf p.parts then
    some (p.parts.drop base.parts.length)
  else none

/-- Absolute components with `..` taken back, seen from the directory `here`. -/
def resolve (here : List Text) (p : Path) : Path :=
  let enter (above : List Text) (part : Text) : List Text :=
    if part = ".." then above.dropLast else above ++ [part]
  ⟨.root, p.parts.foldl enter (if p.isAbsolute then [] else here)⟩

@[simp] theorem join_relative (base : Path) (parts : List Text) :
    base.join ⟨.relative, parts⟩ = ⟨base.anchor, base.parts ++ parts⟩ := rfl

theorem part_ne_of_mem_ofText {t part : Text} (h : part ∈ (ofText t).parts) :
    part.codes ≠ [] ∧ part.codes ≠ [.character '.'] := by
  simp only [ofText, List.mem_filterMap] at h
  obtain ⟨codes, -, h⟩ := h
  split at h
  · cases h
  · next hne =>
    obtain rfl := Option.some.inj h
    exact not_or.1 hne

end Path
end DualImage
