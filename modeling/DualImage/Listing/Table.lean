import DualImage.Listing.Line
import DualImage.SymbolTable.Basic
import DualImage.Text.Lines

/-! Whole listings: the table of the symbols that a build looks at. -/
namespace DualImage.Listing

/-- Where a listing comes from, and whether only memory sections are wanted. -/
structure Origin where
  package : Text
  suffix : Text
  memoryOnly : Bool
  deriving DecidableEq, Repr

namespace Origin

def ofArchive (package : Text) : Origin := ⟨package, Symbol.archiveSuffix, true⟩

def ofBinary : Origin := ⟨Symbol.binaryPackage, Symbol.binarySuffix, false⟩

def reading (o : Origin) (line : List Char) : Reading := Reading.ofLine line o.package o.suffix

def undefinedSection : String := "*UND*"

/-- Undefined symbols, debug entries and file entries are never kept. -/
def keeps (o : Origin) (s : Symbol) : Bool :=
  !s.inSection undefinedSection && !s.isDebug && !s.isFile && (!o.memoryOnly || s.inMemory)

def symbol? (o : Origin) (line : List Char) : Option Symbol :=
  (o.reading line).symbol?.filter o.keeps

/-- What a listing's reader says about a line, if anything. -/
def remark? (o : Origin) (line : List Char) : Option Text :=
  match o.symbol? line with
  | some s => some ("Keeping Symbol " ++ s.name ++ " in package " ++ o.package)
  | none => (o.reading line).remark? line

/-- Of two entries with one name the later counts, in the place of the earlier. -/
def table (o : Origin) (text : String) : SymbolTable :=
  .ofList ((Text.lines text.toList).filterMap o.symbol?)

def remarks (o : Origin) (text : String) : List Text :=
  (Text.lines text.toList).filterMap o.remark?

end Origin
end DualImage.Listing
