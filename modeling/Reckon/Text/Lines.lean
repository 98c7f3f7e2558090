/-!
# Lines

A line ends after its line feed; only the last line of a text may lack one. `firstLine` and
`afterFirstLine` cut a text there, and `unifyLineEnds` brings the line ends of a stored file to this
form.
-/

namespace Reckon.Text

/-- The first line of a text, its line feed included; empty only if the text is. -/
def firstLine : List Char → List Char
  | [] => []
  | c :: cs => if c = '\n' then [c] else c :: firstLine cs

/-- What follows the first line of a text. -/
def afterFirstLine : List Char → List Char
  | [] => []
  | c :: cs => if c = '\n' then cs else afterFirstLine cs

@[simp] theorem firstLine_append_afterFirstLine (cs : List Char) :
    firstLine cs ++ afterFirstLine cs = cs := by
  induction cs with
  | nil => rfl
  | cons c cs ih => by_cases h : c = '\n' <;> simp [firstLine, afterFirstLine, h, ih]

theorem firstLine_eq_nil_iff {cs : List Char} : firstLine cs = [] ↔ cs = [] := by
  cases cs with
  | nil => simp [firstLine]
  | cons c cs => by_cases h : c = '\n' <;> simp [firstLine, h]

/-- A text without its first line is shorter, unless it was empty. -/
theorem length_afterFirstLine_lt {cs : List Char} (h : cs ≠ []) :
    (afterFirstLine cs).length < cs.length := by
  have hsum := congrArg List.length (firstLine_append_afterFirstLine cs)
  have hpos : 0 < (firstLine cs).length :=
    List.length_pos_iff.2 fun hnil => h (firstLine_eq_nil_iff.1 hnil)
  rw [List.length_append] at hsum
  omega

/-- Every line end, be it a carriage return, a line feed or the one after the other, becomes a
single line feed. -/
def unifyLineEnds : List Char → List Char
  | [] => []
  | '\r' :: '\n' :: cs => '\n' :: unifyLineEnds cs
  | c :: cs => (if c = '\r' then '\n' else c) :: unifyLineEnds cs

end Reckon.Text
