import DualImage.Text.Basic

/-! Strings and texts in the order of their code points. -/
namespace DualImage.Text

def numbers (t : Text) : List Nat := t.codes.map CodePoint.number

instance : LT Text := ⟨fun a b => List.lt a.numbers b.numbers⟩

instance : LE Text := ⟨fun a b => List.le a.numbers b.numbers⟩

instance (a b : Text) : Decidable (a < b) := List.decidableLT a.numbers b.numbers

theorem numbers_injective {a b : Text} (h : a.numbers = b.numbers) : a = b := by
  obtain ⟨a⟩ := a
  obtain ⟨b⟩ := b
  exact congrArg Text.mk (List.map_inj_right (fun _ _ => CodePoint.number_injective) |>.1 h)

instance : Std.IsLinearOrder Text where
  le_refl a := List.le_refl a.numbers
  le_trans _ _ _ := List.le_trans
  le_antisymm _ _ h₁ h₂ := numbers_injective (List.le_antisymm h₁ h₂)
  le_total a b := List.le_total a.numbers b.numbers

instance : Std.LawfulOrderLT Text where
  lt_iff _ _ := ⟨fun h => ⟨List.lt_asymm h, not_not_intro h⟩, fun h => Decidable.of_not_not h.2⟩

variable {α κ : Type} [LT κ] [DecidableLT κ]

/-- Puts an element behind all that come before it by the key, and in front of its equals. -/
def place (key : α → κ) (x : α) : List α → List α
  | [] => [x]
  | y :: ys => if key y < key x then y :: place key x ys else x :: y :: ys

/-- Elements of equal keys keep their order. -/
def sortedBy (key : α → κ) (xs : List α) : List α := xs.foldr (place key) []

def sorted (xs : List κ) : List κ := sortedBy id xs

end DualImage.Text
