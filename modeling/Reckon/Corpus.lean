import Reckon.Operator
import Reckon.Draw.Gen

/-!
# A corpus of programs

Programs made at random that can all be read and run. Names are used only after they have been
given a value; divisors are numbers other than zero; and a value is reduced before it is kept, so
that sums and products stay small.
-/

namespace Reckon.Corpus

open Draw

/-! ## Samples -/

/-- An expression of a sample. -/
inductive Term
  | name (ident : String)
  | number (n : Nat)
  | binary (parenthesized : Bool) (left : Term) (op : Operator) (right : Term)
deriving DecidableEq, Repr

/-- The text of an expression. Operands are put next to the operator as they are. -/
def Term.text : Term → String
  | name ident => ident
  | number n => toString n
  | binary false l op r => s!"{l.text} {op.symbol} {r.text}"
  | binary true l op r => s!"({l.text} {op.symbol} {r.text})"

/-- A line of a sample. -/
inductive Entry
  | pass
  | comment (word : String)
  | blank
  | print (value : Term)
  | increase (ident : String) (amount : Nat)
  | assign (ident : String) (value : Term)
deriving DecidableEq, Repr

/-- The text of a line. An assigned value is reduced to a number of three digits. -/
def Entry.text : Entry → String
  | pass => "pass"
  | comment word => s!"# {word}"
  | blank => ""
  | print value => s!"print({value.text})"
  | increase ident amount => s!"{ident} += {amount}"
  | assign ident value => s!"{ident} = ({value.text}) % 1000"

/-- A program that was made at random. -/
structure Sample where
  /-- The lines. -/
  entries : List Entry
  /-- Whether the last line ends in a line feed. -/
  closed : Bool
deriving DecidableEq, Repr

/-- The text of a sample. -/
def Sample.text (s : Sample) : String :=
  "\n".intercalate (s.entries.map Entry.text) ++ (if s.closed then "\n" else "")

/-! ## Making samples -/

/-- The letters other than `a`; draws number them in this order, after `a`. -/
def otherLetters : List Char := "bcdefghijklmnopqrstuvwxyzABCDEFGHIJKLMNOPQRSTUVWXYZ".toList

/-- Words that have a meaning of their own. -/
def reservedWords : List String := ["pass", "print", "input"]

/-- A name of up to nine characters; one that would be a reserved word is changed. -/
def ident : Gen String := do
  let head ← Gen.choose 'a' (otherLetters ++ ['_'])
  let length ← Gen.between 0 8
  let tail ← (Gen.choose 'a' (otherLetters ++ "0123456789_".toList)).replicate length
  let word := String.ofList (head :: tail)
  return if word ∈ reservedWords then word.push '_' else word

/-- A known name or a small number. -/
def operand (names : List String) : Gen Term := do
  match names with
  | [] => number
  | first :: others =>
    if ← Gen.succeeds (.ofPercent 50) then return .name (← Gen.choose first others)
    else number
where
  /-- A number of at most two digits. -/
  number : Gen Term := do return .number (← Gen.between 0 99)

/-- The right operand of `op`: factors are small, divisors are small and not zero, and anything
may be added or subtracted. -/
def rightOperand (op : Operator) (other : Gen Term) : Gen Term :=
  match op with
  | .div | .mod => do return .number (← Gen.between 1 8)
  | .times => do return .number (← Gen.between 0 9)
  | _ => other

/-- An expression over known names with operators nested up to `depth` times. -/
def term (names : List String) : (depth : Nat) → Gen Term
  | 0 => operand names
  | depth + 1 => do
    if ← Gen.succeeds (.ofPercent 30) then operand names
    else
      let op ← Gen.choose Operator.plus [.minus, .times, .div, .mod]
      let left ← term names depth
      let right ← rightOperand op (term names depth)
      let parenthesized ← Gen.succeeds (.ofPercent 30)
      return .binary parenthesized left op right

/-- A line that gives a value to a name. -/
def assignment (names : List String) : Gen Entry := do
  let name ← ident
  return .assign name (← term names 2)

/-- A line over known names. -/
def entry (names : List String) : Gen Entry := .bits53 fun roll =>
  if (Chance.ofPercent 5).covers roll then return .pass
  else if (Chance.ofPercent 10).covers roll then do return .comment (← ident)
  else if (Chance.ofPercent 15).covers roll then return .blank
  else match names with
    | [] => assignment names
    | first :: others =>
      if (Chance.ofPercent 35).covers roll then do return .print (← term names 2)
      else if (Chance.ofPercent 45).covers roll then do
        let name ← Gen.choose first others
        return .increase name (← Gen.between 0 9)
      else assignment names

/-- The names that are known after a line, in the order in which they were first given a value. -/
def Entry.known (names : List String) : Entry → List String
  | assign ident _ => if ident ∈ names then names else names ++ [ident]
  | _ => names

/-- So many lines, over known names and those that the lines themselves introduce. -/
def entries (names : List String) : (count : Nat) → Gen (List Entry)
  | 0 => return []
  | count + 1 => do
    let e ← entry names
    let rest ← entries (e.known names) count
    return e :: rest

/-- A program of at most twelve lines. -/
def sample : Gen Sample := do
  let lines ← entries [] (← Gen.between 0 12)
  return ⟨lines, ← Gen.succeeds (.ofPercent 50)⟩

/-! ## The corpus of a seed -/

/-- So many samples, one after the other from one source. -/
def samples : (count : Nat) → Twister → List Sample
  | 0, _ => []
  | count + 1, t => let (s, t) := sample.run t; s :: samples count t

/-- The texts of the first `count` programs that belong to a seed; there are none for a count that
is not positive. -/
def programs (seed count : Int) : List String :=
  (samples count.toNat (.ofSeed seed)).map Sample.text

/-- The name of the file that holds the program with index `i`, which has six digits or more. -/
def fileName (i : Nat) : String :=
  let digits := (toString i).toList
  let padding := List.replicate (6 - digits.length) '0'
  "case_" ++ String.ofList (padding ++ digits) ++ ".slpy"

/-- The first `count` programs that belong to a seed, with the names of their files. -/
def files (seed count : Int) : List (String × String) :=
  (programs seed count).mapIdx fun i text => (fileName i, text)

end Reckon.Corpus
