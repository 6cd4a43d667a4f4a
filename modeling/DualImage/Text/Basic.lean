import DualImage.Text.CodePoint

/-! Text as a row of code points. A name or a flag may hold a surrogate on its own, which no string
can, so whatever is made of names and flags is text. -/
namespace DualImage

structure Text where
  codes : List CodePoint
  deriving DecidableEq, Repr, Inhabited

namespace Text

def ofChars (cs : List Char) : Text := ⟨cs.map .character⟩

def ofString (s : String) : Text := ofChars s.toList

instance : Coe String Text := ⟨ofString⟩

instance : Append Text := ⟨fun a b => ⟨a.codes ++ b.codes⟩⟩

def isEmpty (t : Text) : Bool := t.codes.isEmpty

def endsWith (t ending : Text) : Bool := ending.codes.isSuffixOf t.codes

/-- The texts in a row, with one more between any two. -/
def intercalate (between : Text) (ts : List Text) : Text :=
  ⟨between.codes.intercalate (ts.map codes)⟩

/-- The characters, unless there is a surrogate among them. -/
def chars? (t : Text) : Option (List Char) := t.codes.mapM CodePoint.character?

/-- The string, unless the text holds a surrogate. -/
def string? (t : Text) : Option String := t.chars?.map String.ofList

/-- Two surrogates that make up a character become that character. One on its own is replaced. -/
def joined : List CodePoint → List Char
  | [] => []
  | .character c :: rest => c :: joined rest
  | [.surrogate _] => ['\ufffd']
  | .surrogate _ :: .character c :: rest => '\ufffd' :: c :: joined rest
  | .surrogate high :: .surrogate low :: rest =>
    match CodePoint.combined? high low with
    | some c => c :: joined rest
    | none => '\ufffd' :: joined (.surrogate low :: rest)

/-- How the text is shown. -/
def toString (t : Text) : String := String.ofList (joined t.codes)

instance : ToString Text := ⟨toString⟩

@[simp] theorem codes_append (a b : Text) : (a ++ b).codes = a.codes ++ b.codes := rfl

theorem chars?_ofChars (cs : List Char) : (ofChars cs).chars? = some cs := by
  induction cs with
  | nil => rfl
  | cons c cs ih =>
    simp only [chars?, ofChars, List.map_cons, List.mapM_cons] at *
    rw [ih]
    rfl

@[simp] theorem string?_ofString (s : String) : (ofString s).string? = some s := by
  simp [string?, ofString, chars?_ofChars]

theorem ofString_injective {s t : String} (h : ofString s = ofString t) : s = t := by
  simpa using congrArg string? h

end Text
end DualImage
