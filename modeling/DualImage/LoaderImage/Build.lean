import DualImage.Compiler.Commands
import DualImage.LoaderImage.Exports

/-! Making the loader image, and reading back what it exports. -/
namespace DualImage.LoaderImage
open World

/-- A copy of the linked loader in which only the exports stay global, the boundary symbols under
their longer names. -/
def build (c : Compiler) (linkedLoader image : Path) (loader application linked : SymbolTable) :
    Action SymbolTable := do
  let exported ← exports loader application linked
  say Console.normal
    ("Generating ROM elf " ++ image.name ++ " (" ++ toString exported.size ++ " symbols)")
  sayAll Console.verbose (exported.report "Exporting")
  discard <| c.copyKeeping linkedLoader exported.names image
  c.renameSymbols image boundarySymbols loaderEnding
  return exported

/-- The symbols left global, boundary symbols under their own names. -/
def readExports (c : Compiler) (image : Path) : Action SymbolTable := do
  let listed ← readListing .ofBinary (← c.dumpSymbols image)
  return importsOf listed

end DualImage.LoaderImage
