/-! Pieces of text: a run of characters inside a longer one. -/
namespace DualImage.Text

variable {α : Type} [BEq α]

def hasPiece (piece : List α) : List α → Bool
  | [] => piece.isEmpty
  | c :: cs => piece.isPrefixOf (c :: cs) || hasPiece piece cs

/-- What stands in front of the first occurrence of a piece, or everything. -/
def beforePiece (piece : List α) : List α → List α
  | [] => []
  | c :: cs => if piece.isPrefixOf (c :: cs) then [] else c :: beforePiece piece cs

end DualImage.Text
