import Reckon.Diagnostic

/-!
# Arithmetic of 32-bit numbers

Operations are computed on integers of any size, and the result is then checked to be a *word*, a
signed number of 32 bits. Division is truncated: the quotient is rounded toward zero and the
remainder has the sign of the dividend.
-/

namespace Reckon

/-- The least word. -/
def minWord : Int := -2147483648

/-- The greatest word. -/
def maxWord : Int := 2147483647

/-- The numbers that a program computes with. -/
def IsWord (n : Int) : Prop := minWord ≤ n ∧ n ≤ maxWord

instance (n : Int) : Decidable (IsWord n) :=
  inferInstanceAs (Decidable (minWord ≤ n ∧ n ≤ maxWord))

/-- The number `n` if it is a word, and the given failure otherwise. -/
def checked (failure : RuntimeCause) (n : Int) : Except RuntimeCause Int :=
  if IsWord n then .ok n else .error failure

/-- The power `base ^ exponent`, which is zero for a negative exponent. Powers of 0, 1 and -1 are
known at once, and those of any other base are too large from the exponent 32 on, so that no great
power is ever computed. -/
def power (base exponent : Int) : Except RuntimeCause Int :=
  if exponent < 0 then .ok 0
  else if base = 0 ∨ base = 1 then .ok (if exponent = 0 then 1 else base)
  else if base = -1 then .ok (if exponent % 2 = 0 then 1 else -1)
  else if 31 < exponent then .error .resultOverflow
  else checked .resultOverflow (base.pow exponent.toNat)

/-- The quotient of the magnitudes, with a minus sign if just one of the two numbers is negative. -/
def quotientOfMagnitudes (a b : Int) : Int :=
  let q : Int := (a.natAbs / b.natAbs : Nat)
  if a < 0 ↔ b < 0 then q else -q

/-- Whether the operator joins two operands. -/
def Operator.isArithmetic : Operator → Bool
  | plus | minus | times | div | mod | pow => true
  | assign | addAssign => false

/-- Applies an operator to two numbers. A remainder is what the quotient leaves of the dividend. It is
no larger than that and is not checked. -/
def Operator.apply (op : Operator) (left right : Int) : Except RuntimeCause Int :=
  match op with
  | plus => checked .resultOverflow (left + right)
  | minus => checked .resultOverflow (left - right)
  | times => checked .resultOverflow (left * right)
  | div =>
    if right = 0 then .error .divisionByZero
    else checked .resultOverflow (quotientOfMagnitudes left right)
  | mod =>
    if right = 0 then .error .divisionByZero
    else .ok (left - quotientOfMagnitudes left right * right)
  | pow => power left right
  | assign | addAssign => .error (.notArithmetic op)

/-- The quotient of the magnitudes is the truncated one. -/
theorem tdiv_eq_magnitudes (a b : Int) : a.tdiv b = quotientOfMagnitudes a b := by
  have hpos (n : Nat) : ¬ Int.ofNat n < 0 := Int.not_lt.2 (Int.natCast_nonneg n)
  have hneg (n : Nat) : Int.negSucc n < 0 := Int.negSucc_lt_zero n
  unfold quotientOfMagnitudes
  rcases a with m | m <;> rcases b with n | n
  · rw [if_pos (iff_of_false (hpos m) (hpos n))]
    rfl
  · rw [if_neg fun h => hpos m (h.2 (hneg n))]
    rfl
  · rw [if_neg fun h => hpos n (h.1 (hneg m))]
    rfl
  · rw [if_pos (iff_of_true (hneg m) (hneg n))]
    rfl

section Division

variable {left right : Int}

theorem Operator.apply_div (hright : right ≠ 0) :
    Operator.div.apply left right = checked .resultOverflow (left.tdiv right) := by
  rw [Operator.apply, if_neg hright, tdiv_eq_magnitudes]

theorem Operator.apply_mod (hright : right ≠ 0) :
    Operator.mod.apply left right = .ok (left.tmod right) := by
  rw [Operator.apply, if_neg hright, Int.tmod_def, tdiv_eq_magnitudes, Int.mul_comm]

end Division

end Reckon
