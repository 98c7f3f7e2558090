import Reckon.Token.Stream
import Reckon.Tree

/-!
# From tokens to trees

The grammar is read by descent on the tokens that are left. A program is a sequence of lines; a
line is any number of `pass` and `print` statements and at most one assignment after them; an
expression is read by precedence climbing. Newlines end statements also within parentheses: an
expression stops at a newline or a closing parenthesis and leaves it to whoever asked for the
expression.

* `expression limit minimum` reads an operand and then, by `operators`, all operators that hold it
  at least as strongly as `minimum`, each with its right operand. The limit is the number of
  expressions that may be open within each other.
* `statement` and `statements` read programs.
* `onStream` lets such a reader move the position of a token stream; an error it reports points at
  the token where it stopped.

A reader that fails keeps the tokens that it had not yet read.
-/

namespace Reckon

/-- Why a reader stops. -/
inductive Rejection
  /-- The tokens are not in the grammar. -/
  | cause (c : GrammarCause)
  /-- A token does not carry the value that its kind calls for. -/
  | malformed
deriving DecidableEq, Repr

/-- Readers of tokens. The state is the tokens that are left. -/
abbrev Parser := EStateM Rejection (List Token)

namespace Parser

/-! ## Single tokens -/

/-- The next token, if there is one. -/
def peek? : Parser (Option Token) := do return (← get).head?

/-- The next token, which must be there. -/
def current : Parser Token := do
  match (← get).head? with
  | some t => return t
  | none => throw (.cause .endOfInput)

/-- Drops the next token. -/
def skip : Parser Unit := modify List.tail

/-- Reads a token of the given kind. -/
def expect (kind : TokenKind) : Parser Token := do
  let t ← current
  if t.kind = kind then
    skip
    return t
  else throw (.cause (.mismatch kind none t))

/-- Refuses the token `got`. -/
def unexpected {α : Type} (wanted : Wanted) (got : Token) : Parser α :=
  throw (.cause (.unexpected wanted got))

/-- Drops a newline, if one is next. -/
def skipNewline : Parser Unit := do
  if let some t ← peek? then
    if t.kind = .newline then skip

section

variable (t : Token) (ts : List Token)

@[simp] theorem run_peek? : peek?.run ts = .ok ts.head? ts := rfl

@[simp] theorem run_current_nil : current.run [] = .error (.cause .endOfInput) [] := rfl

@[simp] theorem run_current_cons : current.run (t :: ts) = .ok t (t :: ts) := rfl

@[simp] theorem run_skip : skip.run ts = .ok () ts.tail := rfl

@[simp] theorem run_expect_nil (kind : TokenKind) :
    (expect kind).run [] = .error (.cause .endOfInput) [] := rfl

@[simp] theorem run_expect_cons (kind : TokenKind) :
    (expect kind).run (t :: ts) =
      if t.kind = kind then .ok t ts
      else .error (.cause (.mismatch kind none t)) (t :: ts) := by
  rw [expect, EStateM.run_bind, run_current_cons]
  by_cases h : t.kind = kind
  · simp only [if_pos h]; rfl
  · simp only [if_neg h]; rfl

@[simp] theorem run_unexpected {α : Type} (wanted : Wanted) :
    (unexpected wanted t : Parser α).run ts = .error (.cause (.unexpected wanted t)) ts := rfl

@[simp] theorem run_skipNewline_nil : skipNewline.run [] = .ok () [] := rfl

@[simp] theorem run_skipNewline_cons :
    skipNewline.run (t :: ts) = .ok () (if t.kind = .newline then ts else t :: ts) := by
  by_cases h : t.kind = .newline <;> simp [skipNewline, h]

end

/-! ## Expressions -/

/-- A request for input, from the word `input` on. -/
def input : Parser Expr := do
  let word ← current
  skip
  let _ ← expect .lparen
  let prompt ← expect .string
  let close ← expect .rparen
  return .input (word.span.join close.span) prompt.lexeme

/-- A number, a name or a request for input. The word `input` is a name unless a parenthesis
follows. -/
def leaf : Parser Expr := do
  let t ← current
  match t.kind with
  | .number =>
    skip
    match t.value with
    | some (.int n) => return .number t.span n
    | _ => throw .malformed
  | .ident =>
    let next := (← get)[1]?
    if t.lexeme = "input" ∧ next.map Token.kind = some .lparen then input
    else
      skip
      return .name t.span t.lexeme
  | _ => unexpected .operand t

/-- Joins `left` with the operators that hold it at least as strongly as `minimum`, and with their
right operands, which `operand` reads. No more operators are read than there are tokens in `bound`;
with all tokens that are left for a bound, that is no restriction. -/
def operators (operand : Int → Parser Expr) (minimum : Int) :
    (bound : List Token) → (left : Expr) → Parser Expr
  | [], left => return left
  | _ :: bound, left => do
    let some t ← peek? | return left
    match t.kind with
    | .newline | .rparen => return left
    | .op =>
      match t.value with
      | some (.op o) =>
        match o.binding? with
        | none => unexpected .arithmeticOperator t
        | some binding =>
          if binding.left < minimum then return left
          else
            skip
            let right ← operand binding.right
            operators operand minimum bound (left.join o right)
      | _ => throw .malformed
    | _ => unexpected .operatorOrEnd t

/-- What an expression begins with: a leaf, or an expression in parentheses, which `inner` reads.
The parentheses leave no trace. -/
def primary (inner : Parser Expr) : Parser Expr := do
  let t ← current
  match t.kind with
  | .lparen =>
    skip
    let e ← inner
    let _ ← expect .rparen
    return e
  | .ident | .number => leaf
  | _ => unexpected .expression t

/-- An expression whose operators all hold at least as strongly as `minimum`; an expression in
parentheses may hold any. Each right operand and each pair of parentheses opens an expression within
this one, and at most `limit` may be open. -/
def expression : (limit : Nat) → (minimum : Int) → Parser Expr
  | 0, _ => throw (.cause .nestedTooDeeply)
  | limit + 1, minimum => do
    let left ← primary (expression limit 0)
    operators (expression limit) minimum (← get) left

/-! ## Statements -/

/-- A `print` statement, from its first word on. -/
def print (limit : Nat) : Parser Stmt := do
  let word ← current
  skip
  let _ ← expect .lparen
  let value ← expression limit 0
  let close ← expect .rparen
  return .print (word.span.join close.span) value

/-- An assignment. The value of `x += e` is the sum of `x`, which stands where the operator does,
and `e`. -/
def assignment (limit : Nat) : Parser Stmt := do
  let name ← current
  if name.kind ≠ .ident then unexpected .statement name
  skip
  let op ← current
  if op.isMatch .op (some (.op .addAssign)) then
    skip
    let right ← expression limit 0
    let value := Expr.join (.name op.span name.lexeme) .plus right
    return .assign (name.span.join value.span) name.lexeme value
  else if op.isMatch .op (some (.op .assign)) then
    skip
    let value ← expression limit 0
    return .assign (name.span.join value.span) name.lexeme value
  else unexpected .assignment op

/-- A statement. -/
def statement (limit : Nat) : Parser Stmt := do
  let t ← current
  if t.isWord "pass" then
    skip
    return .pass t.span
  else if t.isWord "print" then print limit
  else assignment limit

/-- All statements that are left, with the newlines around them. At most `count` steps are made,
each of which reads a token or more. -/
def statements (limit : Nat) : (count : Nat) → Parser (List Stmt)
  | 0 => return []
  | count + 1 => do
    let some t ← peek? | return []
    if t.kind = .newline then
      skip
      statements limit count
    else
      let s ← statement limit
      skipNewline
      return s :: (← statements limit count)

/-! ## Whole inputs -/

/-- All tokens, read as a block. -/
def block (limit : Nat) : Parser Block := do return ⟨← statements limit (← get).length⟩

/-- All tokens, read as a program. -/
def program (limit : Nat) : Parser Program := do return ⟨← block limit⟩

/-- All tokens, read as one expression, which a newline may follow. -/
def wholeExpression (limit : Nat) : Parser Expr := do
  let e ← expression limit 0
  skipNewline
  match ← peek? with
  | none => return e
  | some t => unexpected .endOfLine t

/-- The reader as a step on a stream. -/
def onStream {α : Type} (p : Parser α) : StreamM α := fun s =>
  match p.run s.rest with
  | .ok a rest => .ok a { s with index := s.tokens.length - rest.length }
  | .error r rest =>
    let s' := { s with index := s.tokens.length - rest.length }
    match r with
    | .cause c => .error (.diagnostic ⟨.grammar c, s'.here⟩) s'
    | .malformed => .error (.fault .malformedToken) s'

/-- What the reader makes of a list of tokens. -/
def onTokens {α : Type} (p : Parser α) (tokens : List Token) : Except Error α :=
  match p.onStream.run (.ofTokens tokens) with
  | .ok a _ => .ok a
  | .error e _ => .error e

end Parser

/-- The limit on nested expressions that programs are held to, unless another is given. It stands for
the stack of the machine that reads them, which has room for a thousand calls: each open expression
takes one, and those who call the reader have taken some before. How many depends on them, so the exact
number means nothing. Seven hundred levels can always be read and twelve hundred never. -/
def nestingLimit : Nat := 985

end Reckon
