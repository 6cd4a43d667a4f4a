import DualImage.Listing.Table

/-! Listings as a dump writes them. -/
namespace DualImage.Listing

/-- At least eight lower case digits. -/
def column (i : Int) : List Char := Text.Hexadecimal.digits 8 i.toNat

/-- A visibility marker may stand before the name. -/
def lineOf (marker : Option String) (s : Symbol) : List Char :=
  column s.address ++ ' ' :: s.code.toList ++ ' ' :: s.sectionName.toList ++
    '\t' :: column s.size ++ ' ' :: (marker.elim [] (·.toList ++ [' '])) ++ s.name.toList

/-- One line for each symbol, every line closed. -/
def ofTable (t : SymbolTable) : String :=
  String.ofList (t.symbols.flatMap fun s => lineOf none s ++ ['\n'])

end DualImage.Listing
