import DualImage.Text.Lines

/-! What is shown to the user, and how much of it. -/
namespace DualImage

/-- Errors are written whatever the verbosity. -/
structure Console where
  verbosity : Int
  out : Text
  err : Text
  deriving Repr, Inhabited

namespace Console

def quiet : Int := 0

def normal : Int := 1

def verbose : Int := 2

def ofVerbosity (level : Int) : Console := ⟨level, "", ""⟩

/-- A message that ends with a line feed gets no further one. -/
def say (c : Console) (level : Int) (message : Text) : Console :=
  if level ≤ c.verbosity then { c with out := c.out ++ Text.closeLine message } else c

def print (c : Console) (line : Text) : Console := { c with out := c.out ++ line ++ "\n" }

private def coloured (colour : String) (message ending : Text) : Text :=
  "\x1b[0;" ++ colour ++ "m" ++ message ++ "\x1b[0m" ++ ending

def yellow (c : Console) (message ending : Text) : Console :=
  { c with err := c.err ++ coloured "33" message ending }

def red (c : Console) (message ending : Text) : Console :=
  { c with err := c.err ++ coloured "31" message ending }

@[simp] theorem verbosity_say (c : Console) (level : Int) (message : Text) :
    (c.say level message).verbosity = c.verbosity := by
  unfold say
  split <;> rfl

end Console
end DualImage
