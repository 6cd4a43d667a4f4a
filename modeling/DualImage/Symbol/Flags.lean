/-! The seven flag columns of a symbol table entry. -/
namespace DualImage.Symbol

/-- What the columns say: binding, weak, constructor, warning, indirect, debug or dynamic, kind. -/
structure Flags where
  isLocal : Bool
  isGlobal : Bool
  isUnique : Bool
  weak : Bool
  constructor : Bool
  warning : Bool
  indirect : Bool
  debug : Bool
  dynamic : Bool
  function : Bool
  file : Bool
  object : Bool
  deriving DecidableEq, Repr, Inhabited

namespace Flags

/-- Exactly seven columns: a short code is filled with spaces, a long one is cut. -/
def columns (code : String) : List Char :=
  (code.toList ++ List.replicate (7 - code.length) ' ').take 7

/-- An exclamation mark binds both locally and globally. -/
def ofCode (code : String) : Flags :=
  let column (i : Nat) : Char := (columns code)[i]?.getD ' '
  { isLocal := column 0 == 'l' || column 0 == '!'
    isGlobal := column 0 == 'g' || column 0 == '!'
    isUnique := column 0 == 'u'
    weak := column 1 == 'w'
    constructor := column 2 == 'C'
    warning := column 3 == 'W'
    indirect := column 4 == 'I' || column 4 == 'i'
    debug := column 5 == 'd'
    dynamic := column 5 == 'D'
    function := column 6 == 'F'
    file := column 6 == 'f'
    object := column 6 == 'O' }

end DualImage.Symbol.Flags
