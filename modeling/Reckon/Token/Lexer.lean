import Reckon.Diagnostic

/-!
# From text to tokens

A text is cut into pieces from left to right: blanks, comments, and tokens. `cut` looks at the
text that is left and finds the piece it begins with, always the longest one; it knows nothing of
places or of what came before. `scan` runs through the pieces, keeps count of the place, and
closes lines: a line on which there are tokens always ends in a newline token, if need be one with
no spelling, which stands at a comment or at the end of the text.
-/

namespace Reckon.Lexer

/-! ## Classes of characters -/

/-- A decimal digit. -/
def isDigit (c : Char) : Bool := '0' ≤ c && c ≤ '9'

/-- A letter or an underscore, with which names begin. -/
def isNameStart (c : Char) : Bool :=
  ('a' ≤ c && c ≤ 'z') || ('A' ≤ c && c ≤ 'Z') || c = '_'

/-- A character that may stand in a name after the first. -/
def isNameChar (c : Char) : Bool := isNameStart c || isDigit c

/-! ## Pieces -/

/-- A piece of text. -/
inductive Piece
  /-- Blanks, which only separate. -/
  | blank
  /-- A comment, with the line feed that ends it. -/
  | comment
  /-- A token. -/
  | token (kind : TokenKind) (lexeme : String) (value : Option TokenValue)
deriving DecidableEq, Repr

/-- The token made of the one character `c`, if there is one. -/
def single? : Char → Option (TokenKind × Option TokenValue)
  | '(' => some (.lparen, none)
  | ')' => some (.rparen, none)
  | ',' => some (.comma, none)
  | '-' => some (.op, some (.op .minus))
  | '%' => some (.op, some (.op .mod))
  | '=' => some (.op, some (.op .assign))
  | '*' => some (.op, some (.op .times))
  | '+' => some (.op, some (.op .plus))
  | _ => none

/-- The operator made of the two characters `c` and `d`, if there is one. -/
def double? (c d : Char) : Option Operator :=
  if c = '*' ∧ d = '*' then some .pow
  else if c = '+' ∧ d = '=' then some .addAssign
  else if c = '/' ∧ d = '/' then some .div
  else none

/-- Cuts a number that begins with the digit `c`. -/
def cutNumber (c : Char) (cs : List Char) : Except (LexicalCause × Nat) (Piece × Nat) :=
  let digits := c :: cs.takeWhile isDigit
  let value := Nat.ofDigitChars 10 digits 0
  let lexeme := String.ofList digits
  if value ≤ maxLiteral then
    .ok (.token .number lexeme (some (.int value)), digits.length - 1)
  else .error (.literalTooLarge lexeme, digits.length - 1)

/-- Cuts a string whose opening quote has been read. -/
def cutString (cs : List Char) : Except (LexicalCause × Nat) (Piece × Nat) :=
  let body := cs.takeWhile fun c => c ≠ '"' && c ≠ '\n'
  if cs[body.length]? = some '"' then
    .ok (.token .string (String.ofList body) none, body.length + 1)
  else .error (.unterminatedString, 0)

/-- Cuts the first piece off the text `c :: cs`. The number that comes with it counts the characters
of the piece, or of the text that is to blame, after the first. -/
def cut (c : Char) (cs : List Char) : Except (LexicalCause × Nat) (Piece × Nat) :=
  if c = ' ' ∨ c = '\t' ∨ (c = '\r' ∧ cs.head? = some '\n') then .ok (.blank, 0)
  else if c = '\n' then .ok (.token .newline "\n" none, 0)
  else if c = '#' then .ok (.comment, (cs.takeWhile (· ≠ '\n')).length + 1)
  else match cs.head?.bind (double? c) with
    | some o => .ok (.token .op o.symbol (some (.op o)), 1)
    | none =>
      match single? c with
      | some (kind, value) => .ok (.token kind (String.singleton c) value, 0)
      | none =>
        if isDigit c then cutNumber c cs
        else if isNameStart c then
          let name := c :: cs.takeWhile isNameChar
          .ok (.token .ident (String.ofList name) none, name.length - 1)
        else if c = '"' then cutString cs
        else .error (.unexpectedCharacter c, 0)

/-! ## Tokens -/

/-- A newline token without spelling. -/
def lineEnd (loc : Loc) : Token := ⟨.newline, "", .point loc, none⟩

/-- The token that a piece at `loc` gives, where `lineOpen` says that there are tokens on its line
already: a comment closes such a line. -/
def Piece.token? (piece : Piece) (width : Nat) (loc : Loc) (lineOpen : Bool) : Option Token :=
  match piece with
  | .blank => none
  | .comment => if lineOpen then some (lineEnd loc) else none
  | .token kind lexeme value => some ⟨kind, lexeme, ⟨loc, loc.right width⟩, value⟩

/-- Whether there are tokens on the line after a piece. -/
def Piece.leavesOpen (piece : Piece) (lineOpen : Bool) : Bool :=
  match piece with
  | .blank => lineOpen
  | .comment => false
  | .token kind _ _ => kind ≠ .newline

/-- Cuts the text that begins at `loc` into tokens. The tokens cut so far are in `before`, the
latest first, and `lineOpen` says whether there are any on the line. -/
def scan (loc : Loc) (lineOpen : Bool) (before : List Token) :
    List Char → Except Diagnostic (List Token)
  | [] => .ok ((if lineOpen then lineEnd loc :: before else before).reverse)
  | c :: cs =>
    match cut c cs with
    | .error (cause, width) => .error ⟨.lexical cause, ⟨loc, loc.right width⟩⟩
    | .ok (piece, width) =>
      scan (loc.after (c :: cs.take width)) (piece.leavesOpen lineOpen)
        ((piece.token? width loc lineOpen).toList ++ before) (cs.drop width)
termination_by cs => cs.length
decreasing_by simp only [List.length_drop, List.length_cons]; omega

/-- Tokens cut before make no difference to those still to be cut. -/
theorem scan_before (loc : Loc) (lineOpen : Bool) (before : List Token) (cs : List Char) :
    scan loc lineOpen before cs = (scan loc lineOpen [] cs).map (before.reverse ++ ·) := by
  induction hn : cs.length using Nat.strongRecOn generalizing loc lineOpen before cs with
  | _ n ih =>
    cases cs with
    | nil => cases lineOpen <;> simp [scan, Except.map]
    | cons c cs =>
      rw [scan, scan]
      cases cut c cs with
      | error e => rfl
      | ok p =>
        obtain ⟨piece, width⟩ := p
        have hlt : (cs.drop width).length < n := by
          rw [← hn, List.length_drop, List.length_cons]; omega
        simp only
        rw [ih _ hlt _ _ _ _ rfl,
          ih _ hlt _ _ ((piece.token? width loc lineOpen).toList ++ []) _ rfl]
        cases scan (loc.after (c :: cs.take width)) (piece.leavesOpen lineOpen) []
            (cs.drop width) <;> simp [Except.map]

end Reckon.Lexer

namespace Reckon

/-- The tokens of a text. -/
def tokenize (source : String) : Except Diagnostic (List Token) :=
  Lexer.scan .origin false [] source.toList

end Reckon
