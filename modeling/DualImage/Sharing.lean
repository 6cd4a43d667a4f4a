import DualImage.SymbolTable.Basic

/-! Packages that are in both halves: those that the application takes from the loader, and those
that are shared only in part. -/
namespace DualImage.Sharing

/-- Symbols that other packages can see, of the packages that are looked at. -/
def visible (application : SymbolTable) (left : List Text) : List Symbol :=
  application.symbols.filter fun s => !s.isLocal && !left.contains s.package

/-- Packages all of whose visible symbols are exported. A package without visible symbols and one
of those to keep are never among them. -/
def commonPackages (application exported : SymbolTable) (keep : List Text) : List Text :=
  let symbols := visible application keep
  let whole (package : Text) : Bool :=
    symbols.all fun s => s.package != package || exported.contains s.name
  Text.sorted ((symbols.map (·.package)).eraseDups.filter whole)

/-- Whether the loader holds the symbol from the same package, but with other flags or size. -/
def differsInLoader (loader : SymbolTable) (s : Symbol) : Bool :=
  (loader.find? s.name).any fun other =>
    other.package == s.package && (other.flags != s.flags || other.size != s.size)

/-- Symbols of a package that are not exported because each half compiled them differently. -/
def unshared (loader application exported : SymbolTable) (skip : List Text) (package : Text) :
    List Symbol :=
  (visible application skip).filter fun s =>
    s.package == package && !exported.contains s.name && differsInLoader loader s

/-- The first package, by name, with exported and with unshared symbols, and the latter in the
order of their names. -/
def partlyShared? (loader application exported : SymbolTable) (skip : List Text) :
    Option (Text × List Symbol) :=
  let symbols := visible application skip
  let packages := ((symbols.filter (exported.contains ·.name)).map (·.package)).eraseDups
  (Text.sorted packages).findSome? fun package =>
    let names := unshared loader application exported skip package
    if names.isEmpty then none else some (package, Text.sortedBy (·.name) names)

end DualImage.Sharing
