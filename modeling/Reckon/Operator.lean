/-!
# Operators

The operators of the language: six of arithmetic, which join two operands, and two of assignment,
which follow the name of a variable. How tightly an operator of arithmetic holds its operands is
given by a pair of binding powers.
-/

namespace Reckon

/-- An operator. -/
inductive Operator
  | plus
  | minus
  | times
  | div
  | mod
  | assign
  | pow
  | addAssign
deriving DecidableEq, Repr

/-- How strongly an operator holds the operand on either side. The stronger of two neighbouring
operators takes the operand between them. -/
structure Binding where
  /-- The hold on the left operand. -/
  left : Int
  /-- The hold on the right operand. -/
  right : Int
deriving DecidableEq, Repr

namespace Operator

/-- The spelling of an operator in a program. -/
def symbol : Operator → String
  | plus => "+"
  | minus => "-"
  | times => "*"
  | div => "//"
  | mod => "%"
  | assign => "="
  | pow => "**"
  | addAssign => "+="

/-- The binding powers of an operator of arithmetic. A power that is greater on the right makes
equal neighbours group to the left; exponentiation alone groups to the right. -/
def binding? : Operator → Option Binding
  | plus | minus => some ⟨1, 2⟩
  | times | div | mod => some ⟨3, 4⟩
  | pow => some ⟨6, 5⟩
  | assign | addAssign => none

end Operator

end Reckon
