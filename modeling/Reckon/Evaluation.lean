import Reckon.Arithmetic
import Reckon.Session
import Reckon.Text.Blank
import Reckon.Token.Lexer
import Reckon.Tree

/-!
# Running trees

Operands are evaluated from left to right, then the operator is applied; the first error ends it
all. `Expr.evaluate` is a machine with two stacks, one of pending work and one of values, so that
the depth of a tree does not matter; `Expr.evaluateDirectly` says the same by recursion on the
tree.
-/

namespace Reckon

/-! ## Reading numbers -/

/-- Splits the text of a number into its sign, of which `true` is the negative one, and its digits.
-/
def signedDigits? (text : List Char) : Option (Bool × List Char) :=
  let (negative, digits) := match text with
    | '-' :: rest => (true, rest)
    | '+' :: rest => (false, rest)
    | _ => (false, text)
  if digits ≠ [] ∧ digits.all Lexer.isDigit then some (negative, digits) else none

/-- The number with the given sign and digits. -/
def signedValue (negative : Bool) (digits : List Char) : Int :=
  let magnitude : Int := Nat.ofDigitChars 10 digits 0
  if negative then -magnitude else magnitude

/-- Writes the prompt and reads a number from the next line, which is used up even if it spells
none. -/
def readNumber (span : Span) (prompt : String) : Run Int := do
  Run.write prompt
  let line ← Run.readLine
  if line = [] then Run.fail span .endOfInput
  let text := Text.trim line
  match signedDigits? text with
  | none => Run.fail span (.invalidNumber (String.ofList text))
  | some (negative, digits) =>
    if maxDigits < digits.length then throw (.fault (.tooManyDigits digits.length))
    let n := signedValue negative digits
    if IsWord n then return n
    else Run.fail span (.numberOutOfRange (String.ofList text))

/-! ## Expressions -/

namespace Expr

/-- Evaluates an expression that has no operands. -/
def evaluateLeaf : Expr → Run Int
  | number span value => Run.ofResult span (checked (.literalOverflow value) value)
  | name span ident => do
    match (← get).vars.get? ident with
    | some value => return value
    | none => Run.fail span (.undefinedName ident)
  | input span prompt => readNumber span prompt
  | e => throw (.fault (.notAnExpression e.kind))

/-- Evaluates an expression by recursion. -/
def evaluateDirectly : Expr → Run Int
  | binary span l op r => do
    let left ← l.evaluateDirectly
    let right ← r.evaluateDirectly
    Run.ofResult span (op.apply left right)
  | e => e.evaluateLeaf

end Expr

/-- Work that the machine has still to do. -/
inductive Task
  /-- Evaluate an expression and push its value. -/
  | operand (e : Expr)
  /-- Pop two values, the right one first, and push the result of the operator. -/
  | operate (span : Span) (op : Operator)
deriving DecidableEq, Repr

/-- The number of steps that a task takes. -/
def Task.cost : Task → Nat
  | operand e => 2 * e.size
  | operate .. => 1

/-- The number of steps that pending work takes. -/
def pendingCost : List Task → Nat
  | [] => 0
  | task :: pending => task.cost + pendingCost pending

/-- Does the pending work on a stack of values and gives the values that are left. -/
def work : List Task → List Int → Run (List Int)
  | [], values => return values
  | .operand (.binary span l op r) :: pending, values =>
    work (.operand l :: .operand r :: .operate span op :: pending) values
  | .operand e :: pending, values => do
    let value ← e.evaluateLeaf
    work pending (value :: values)
  | .operate span op :: pending, right :: left :: values => do
    let value ← Run.ofResult span (op.apply left right)
    work pending (value :: values)
  | .operate .. :: _, _ => throw (.fault .missingOperand)
termination_by pending => pendingCost pending
decreasing_by
  · simp only [pendingCost, Task.cost, Expr.size]; omega
  · have := e.size_pos
    simp only [pendingCost, Task.cost]; omega
  · simp only [pendingCost, Task.cost]; omega

/-- Evaluates an expression. -/
def Expr.evaluate (e : Expr) : Run Int := do
  match ← work [.operand e] [] with
  | value :: _ => return value
  | [] => throw (.fault .missingOperand)

/-! ## Statements -/

/-- Runs a statement. -/
def Stmt.run : Stmt → Run Unit
  | assign _ ident value => do Run.assign ident (← value.evaluate)
  | print _ value => do
    let n ← value.evaluate
    Run.write s!"{n}\n"
  | pass _ => return ()
  | misplaced kind _ => throw (.fault (.notAStatement kind))

/-- Runs the statements of a block one after the other. -/
def Block.run (b : Block) : Run Unit := b.statements.forM Stmt.run

/-- Runs a program. -/
def Program.run (p : Program) : Run Unit := p.main.run

/-- Evaluates a node; only expressions have a value. -/
def Node.run : Node → Run (Option Int)
  | expr e => some <$> e.evaluate
  | stmt s => do s.run; return none
  | block b => do b.run; return none
  | program p => do p.run; return none

end Reckon
