/-!
# Places in a text

A `Loc` names a character of a text by its row and its column, both counted from one; a `Span` is a
closed stretch from the place of a first character to the place of a last one. Nothing forces the
numbers of a place to be positive: places also come from callers, and every operation here is
defined for all of them.
-/

namespace Reckon

/-- A place in a text: a row and a column, the first of each being one. -/
structure Loc where
  /-- The line the place is on. -/
  row : Int
  /-- The position within the line. -/
  col : Int
deriving DecidableEq, Repr

namespace Loc

/-- The place of the first character of every text. -/
def origin : Loc := ⟨1, 1⟩

instance : Inhabited Loc := ⟨origin⟩

/-- Places are ordered as a reader meets them: by row, then by column. -/
instance : LT Loc := ⟨fun a b => a.row < b.row ∨ a.row = b.row ∧ a.col < b.col⟩

instance : LE Loc := ⟨fun a b => a.row < b.row ∨ a.row = b.row ∧ a.col ≤ b.col⟩

instance (a b : Loc) : Decidable (a < b) :=
  inferInstanceAs (Decidable (a.row < b.row ∨ a.row = b.row ∧ a.col < b.col))

instance (a b : Loc) : Decidable (a ≤ b) :=
  inferInstanceAs (Decidable (a.row < b.row ∨ a.row = b.row ∧ a.col ≤ b.col))

theorem lt_iff {a b : Loc} : a < b ↔ a.row < b.row ∨ a.row = b.row ∧ a.col < b.col := Iff.rfl

theorem le_iff {a b : Loc} : a ≤ b ↔ a.row < b.row ∨ a.row = b.row ∧ a.col ≤ b.col := Iff.rfl

/-- The place `n` columns to the right, on the same row. -/
def right (l : Loc) (n : Nat) : Loc := ⟨l.row, l.col + n⟩

/-- The place that follows the character `c` standing at `l`. -/
def next (l : Loc) (c : Char) : Loc := if c = '\n' then ⟨l.row + 1, 1⟩ else ⟨l.row, l.col + 1⟩

/-- The place that follows the text `cs` when its first character stands at `l`. -/
def after (l : Loc) (cs : List Char) : Loc := cs.foldl next l

@[simp] theorem after_nil (l : Loc) : l.after [] = l := rfl

@[simp] theorem after_cons (l : Loc) (c : Char) (cs : List Char) :
    l.after (c :: cs) = (l.next c).after cs := rfl

theorem after_append (l : Loc) (cs ds : List Char) :
    l.after (cs ++ ds) = (l.after cs).after ds := by
  simp [after, List.foldl_append]

/-- A place is written as its row and its column with a colon between them. -/
def render (l : Loc) : String := s!"{l.row}:{l.col}"

end Loc

/-- A stretch of text, given by the places of its first and its last character. -/
structure Span where
  /-- The place of the first character. -/
  start : Loc
  /-- The place of the last character. -/
  stop : Loc
deriving DecidableEq, Repr

namespace Span

/-- The span of a single character. -/
def point (l : Loc) : Span := ⟨l, l⟩

instance : Inhabited Span := ⟨point .origin⟩

/-- The stretch from the start of `a` to the end of `b`. -/
def join (a b : Span) : Span := ⟨a.start, b.stop⟩

@[simp] theorem join_start (a b : Span) : (a.join b).start = a.start := rfl

@[simp] theorem join_stop (a b : Span) : (a.join b).stop = b.stop := rfl

/-- Both ends of a span, with a dash between them. -/
def render (s : Span) : String := s!"{s.start.render}-{s.stop.render}"

/-- Where a reader should look: the start of the span, after the name of the file if there is one.
A file without a name is as good as none. -/
def locate (s : Span) (file : Option String) : String :=
  match file with
  | none | some "" => s.start.render
  | some name => s!"{name}:{s.start.render}"

end Span

end Reckon
