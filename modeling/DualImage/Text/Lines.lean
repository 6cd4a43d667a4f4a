import DualImage.Text.Basic

/-! Line breaks: cutting text into lines, and one spelling for all ends of line. -/
namespace DualImage.Text

/-- Feeds, vertical tab, the three information separators above the unit, next line, and the line
and paragraph separators. Carriage return followed by line feed counts once in `lines`. -/
def isLineBreak (c : Char) : Bool :=
  let n := c.toNat
  (0x0A ≤ n && n ≤ 0x0D) || (0x1C ≤ n && n ≤ 0x1E) || n == 0x85 || n == 0x2028 || n == 0x2029

/-- The lines without their breaks. A break at the very end opens no further line. -/
def lines : List Char → List (List Char)
  | [] => []
  | '\r' :: '\n' :: rest => [] :: lines rest
  | c :: rest =>
    if isLineBreak c then [] :: lines rest
    else match lines rest with
      | [] => [[c]]
      | line :: more => (c :: line) :: more

/-- Every carriage return, alone or before a line feed, becomes one line feed. -/
def unifyBreaks : List Char → List Char
  | [] => []
  | '\r' :: '\n' :: rest => '\n' :: unifyBreaks rest
  | c :: rest => (if c = '\r' then '\n' else c) :: unifyBreaks rest

/-- The text with a line feed at its end, added only where it is missing. -/
def closeLine (t : Text) : Text :=
  if t.endsWith "\n" then t else t ++ "\n"

theorem unifyBreaks_eq_self {cs : List Char} (h : '\r' ∉ cs) : unifyBreaks cs = cs := by
  fun_induction unifyBreaks cs with
  | case1 => rfl
  | case2 rest ih => simp at h
  | case3 c rest hc ih =>
    have hne : c ≠ '\r' := fun e => h (by simp [e])
    simp [hne, ih fun m => h (List.mem_cons_of_mem _ m)]

theorem return_notMem_unifyBreaks (cs : List Char) : '\r' ∉ unifyBreaks cs := by
  fun_induction unifyBreaks cs with
  | case1 => simp
  | case2 rest ih => simpa using ih
  | case3 c rest hc ih =>
    by_cases e : c = '\r'
    · simpa [e] using ih
    · simpa [e] using ⟨fun h => e h.symm, ih⟩

end DualImage.Text
