import DualImage.Yaml.Value

/-! What a node is meant to be: by the tag that is written on it, or by its form. -/
namespace DualImage.Yaml

/-- The sign of equality is a value of its own and becomes text only as a key. A tag that is not
known has no value. -/
inductive Tag where
  | null
  | boolean
  | integer
  | text
  | bytes
  | list
  | pairs
  | set
  | mapping
  | equals
  | unknown
  deriving DecidableEq, Repr, Inhabited

namespace Tag

def standardStem : String := "tag:yaml.org,2002:"

def ofUri (uri : String) : Tag :=
  let names := [("null", null), ("bool", boolean), ("int", integer), ("str", text),
    ("binary", bytes), ("seq", list), ("pairs", pairs), ("omap", pairs), ("set", set),
    ("map", mapping), ("value", equals)]
  ((names.find? fun (name, _) => standardStem ++ name == uri).map (·.2)).getD unknown

/-- Words that are marks of the language. -/
def marks : List String := ["<<", "!", "&", "*"]

/-- A plain scalar by its form. A mark on its own is not known, and numbers with a fraction and
dates count as text. A line feed at the end does not change the form. -/
def ofPlain (t : Text) : Tag :=
  match t.string? with
  | none => text
  | some s =>
    let word := Value.withoutBreak s
    if s == "" || Value.nullWords.contains word then null
    else if word == "=" then equals
    else if marks.contains word then unknown
    else if (Value.truth? word).isSome then boolean
    else if Value.isInteger word.toList then integer
    else text

/-- A lone exclamation mark says that the form counts, of quoted scalars too. -/
def ofScalar (written : Option String) (t : Text) (plain : Bool) : Tag :=
  match written with
  | none => if plain then ofPlain t else text
  | some "!" => ofPlain t
  | some uri => ofUri uri

/-- A lone exclamation mark says no more than no tag at all. -/
def ofCollection (written : Option String) (kind : Tag) : Tag :=
  match written with
  | none => kind
  | some "!" => kind
  | some uri => ofUri uri

end Tag
end DualImage.Yaml
