import DualImage.Text.Quoted

/-! Reasons for which a file system refuses a path. -/
namespace DualImage

/-- An unusable path holds a null character or a surrogate that stands for no byte. It never reaches
the file system, so its number and text are shown nowhere. -/
inductive FileFault where
  | missing
  | notDirectory
  | isDirectory
  | occupied
  | nameTooLong
  | unusable
  deriving DecidableEq, Repr

namespace FileFault

def number : FileFault → Nat
  | missing => 2
  | occupied => 17
  | notDirectory => 20
  | isDirectory => 21
  | nameTooLong => 36
  | unusable => 22

def text : FileFault → String
  | missing => "No such file or directory"
  | occupied => "File exists"
  | notDirectory => "Not a directory"
  | isDirectory => "Is a directory"
  | nameTooLong => "File name too long"
  | unusable => "Invalid argument"

def describe (f : FileFault) (path : Text) : String :=
  "[Errno " ++ toString f.number ++ "] " ++ f.text ++ ": " ++ Text.quoted path

end FileFault
end DualImage
