import DualImage.Text.Basic

/-! Tokens of a YAML stream. -/
namespace DualImage.Yaml

/-- The starts and the end of block collections have no characters of their own: they come from
the indentation. -/
inductive Token where
  | version (major : Nat)
  | handle (name stem : String)
  | directive
  | documentStart
  | documentEnd
  | streamEnd
  | blockListStart
  | blockMappingStart
  | blockEnd
  | flowListStart
  | flowListEnd
  | flowMappingStart
  | flowMappingEnd
  | blockEntry
  | flowEntry
  | key
  | value
  | alias (name : String)
  | anchor (name : String)
  | tag (handle : Option String) (suffix : String)
  | scalar (text : Text) (plain : Bool)
  deriving DecidableEq, Repr, Inhabited

end DualImage.Yaml
