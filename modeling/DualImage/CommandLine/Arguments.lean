/-! Options and arguments of a command. -/
namespace DualImage.CommandLine

/-- An option with the letter that stands for it, if one does. -/
structure OptionForm where
  name : String
  letter : Option Char
  takesValue : Bool
  deriving Repr, DecidableEq

/-- Options in their order, flags without a value. -/
structure Arguments where
  options : List (String × Option String)
  operands : List String
  deriving Repr, Inhabited, DecidableEq

namespace Arguments

def give (a : Arguments) (name : String) (value : Option String) : Arguments :=
  { a with options := (name, value) :: a.options }

def has (a : Arguments) (name : String) : Bool := a.options.any (·.1 == name)

/-- The last value given. -/
def value? (a : Arguments) (name : String) : Option String :=
  (a.options.filterMap fun (n, value) => if n == name then value else none).getLast?

/-- Flags by their letters, several behind one dash. -/
def letters? (forms : List OptionForm) : List Char → Option (List String)
  | [] => some []
  | c :: rest => do
    let form ← forms.find? (·.letter == some c)
    if form.takesValue then none
    else return form.name :: (← letters? forms rest)

/-- A word cut at its first sign of equality. -/
def splitValue (word : String) : String × Option String :=
  let cs := word.toList
  match cs.dropWhile (· != '=') with
  | [] => (word, none)
  | _ :: value => (String.ofList (cs.takeWhile (· != '=')), some (String.ofList value))

/-- Options may stand between operands. Two dashes end them, unless an option before takes them as
its value. -/
def read? (forms : List OptionForm) : List String → Option Arguments
  | [] => some ⟨[], []⟩
  | "--" :: rest => some ⟨[], rest⟩
  | word :: rest =>
    if word.length ≤ 1 || !word.startsWith "-" then do
      let a ← read? forms rest
      return { a with operands := word :: a.operands }
    else
      let (name, given) := splitValue word
      match forms.find? (·.name == name), given with
      | some form, some value =>
        if form.takesValue then return (← read? forms rest).give name (some value) else none
      | some form, none =>
        if form.takesValue then
          match rest with
          | [] => none
          | value :: rest => return (← read? forms rest).give name (some value)
        else return (← read? forms rest).give name none
      | none, _ =>
        if word.startsWith "--" then none
        else do
          let names ← letters? forms (word.toList.drop 1)
          let a ← read? forms rest
          return names.foldr (fun name a => a.give name none) a

end Arguments
end DualImage.CommandLine
