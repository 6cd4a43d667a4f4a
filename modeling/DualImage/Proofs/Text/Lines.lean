import DualImage.Text.Blank
import DualImage.Text.Lines

/-! Where lines end, and the lines of texts that are put together. -/
namespace DualImage.Text
variable {cs ds line rest : List Char} {more : List (List Char)}

theorem isLineBreak_of_not_blank {c : Char} (h : isBlank c = false) : isLineBreak c = false := by
  simp only [isBlank, isLineBreak] at *
  grind

theorem lines_cons {c : Char} (hc : isLineBreak c = false)
    (h : lines cs = line :: more) : lines (c :: cs) = (c :: line) :: more := by
  have hreturn : c ≠ '\r' := by
    rintro rfl
    cases hc
  rw [lines.eq_3 _ _ (fun rest he => absurd he hreturn), hc, h]
  rfl

/-- A line ends at its break, whichever of the two it is. -/
theorem lines_closed (h : ∀ c ∈ line, isLineBreak c = false) (carriageReturn : Bool) :
    lines (line ++ (if carriageReturn then ['\r', '\n'] else ['\n']) ++ rest) =
      line :: lines rest := by
  induction line with
  | nil => cases carriageReturn <;> simp [lines, isLineBreak]
  | cons c line ih =>
    exact lines_cons (h c List.mem_cons_self) (ih fun d hd => h d (List.mem_cons_of_mem c hd))

/-- The last line is ended. -/
def Closed (cs : List Char) : Prop := ∀ c ∈ cs.getLast?, isLineBreak c = true

instance : Decidable (Closed cs) :=
  decidable_of_iff (cs.getLast?.all isLineBreak = true) (Option.all_eq_true _ _)

theorem Closed.tail {c : Char} (h : Closed (c :: cs)) : Closed cs := by
  intro d hd
  cases cs with
  | nil => cases hd
  | cons e cs => exact h d (by rwa [List.getLast?_cons_cons])

private theorem lines_eq_nil_iff : lines cs = [] ↔ cs = [] := by
  fun_cases lines cs <;> simp_all

private theorem lines_break {c : Char} (hc : isLineBreak c = true)
    (h : ∀ rest, c = '\r' → cs = '\n' :: rest → False) : lines (c :: cs) = [] :: lines cs := by
  rw [lines.eq_3 _ _ (fun rest hr => h rest hr), if_pos hc]

/-- The lines of a text whose last line is ended come before those of the text behind it. A line feed
there may still belong to the last line. -/
theorem lines_append (h : Closed cs) (ds : List Char) :
    ∃ more, lines (cs ++ ds) = lines cs ++ more ∧ (lines ds = more ∨ lines ds = [] :: more) := by
  fun_induction lines cs with
  | case1 => exact ⟨lines ds, rfl, .inl rfl⟩
  | case2 rest ih =>
    obtain ⟨more, hmore, hds⟩ := ih h.tail.tail
    exact ⟨more, congrArg ([] :: ·) hmore, hds⟩
  | case3 c rest hreturn hbreak ih =>
    cases rest with
    | nil =>
      by_cases hfeed : ∃ after, c = '\r' ∧ ds = '\n' :: after
      · -- the two make up one break
        obtain ⟨after, rfl, rfl⟩ := hfeed
        exact ⟨lines after, rfl, .inr (lines_break rfl fun _ he => by cases he)⟩
      · have hline := lines_break hbreak fun after hr hn => hfeed ⟨after, hr, hn⟩
        exact ⟨lines ds, hline, .inl rfl⟩
    | cons d rest =>
      obtain ⟨more, hmore, hds⟩ := ih h.tail
      have hline : lines (c :: (d :: rest ++ ds)) = [] :: lines (d :: rest ++ ds) := by
        refine lines_break hbreak fun after hr hn => hreturn rest hr ?_
        rw [(List.cons.inj hn).1]
      exact ⟨more, hline.trans (congrArg ([] :: ·) hmore), hds⟩
  | case4 c rest hreturn hbreak hnil ih =>
    obtain rfl := lines_eq_nil_iff.1 hnil
    exact absurd (h c rfl) hbreak
  | case5 c rest hreturn hbreak line more hcons ih =>
    obtain ⟨behind, hbehind, hds⟩ := ih h.tail
    rw [hcons, List.cons_append] at hbehind
    exact ⟨behind, lines_cons (Bool.of_not_eq_true hbreak) hbehind, hds⟩

end DualImage.Text
