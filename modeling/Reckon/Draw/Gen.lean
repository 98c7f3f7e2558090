import Reckon.Draw.Twister

/-!
# Random values

A `Gen α` describes how to make an `α` by drawing numbers from given ranges. What it may make is
thereby fixed apart from any source of numbers: `Gen.Possible` says that some draws lead to a
result, and `Gen.run` takes the draws from a twister.
-/

namespace Reckon.Draw

/-- A way to make a value by random draws. -/
inductive Gen (α : Type) : Type
  /-- The value is at hand. -/
  | done (a : α)
  /-- Draw a number that is at most `bound`. -/
  | upTo (bound : Nat) (next : Fin (bound + 1) → Gen α)
  /-- Draw a number of 53 bits. -/
  | bits53 (next : Fin Twister.outcomes53 → Gen α)

namespace Gen

variable {α β : Type}

/-- Makes a value and then goes on with it. -/
def andThen : Gen α → (α → Gen β) → Gen β
  | done a, f => f a
  | upTo bound next, f => upTo bound fun i => (next i).andThen f
  | bits53 next, f => bits53 fun i => (next i).andThen f

instance : Monad Gen where
  pure := done
  bind := andThen

/-- Makes a value with the draws of a twister. -/
def run : Gen α → Twister → α × Twister
  | done a, t => (a, t)
  | upTo bound next, t => let (i, t) := t.upTo bound; (next i).run t
  | bits53 next, t => let (i, t) := t.bits53; (next i).run t

/-- The values that may be made, whatever is drawn. -/
inductive Possible : Gen α → α → Prop
  | done (a : α) : Possible (done a) a
  | upTo {bound : Nat} {next : Fin (bound + 1) → Gen α} {a : α} (i : Fin (bound + 1)) :
      Possible (next i) a → Possible (upTo bound next) a
  | bits53 {next : Fin Twister.outcomes53 → Gen α} {a : α} (i : Fin Twister.outcomes53) :
      Possible (next i) a → Possible (bits53 next) a

/-- What a twister makes is possible. -/
theorem possible_run (g : Gen α) (t : Twister) : Possible g (g.run t).1 := by
  induction g generalizing t with
  | done a => exact .done a
  | upTo bound next ih => exact .upTo _ (ih _ _)
  | bits53 next ih => exact .bits53 _ (ih _ _)

/-- One of the values given, each as likely as the others. -/
def choose (first : α) (others : List α) : Gen α :=
  upTo others.length fun i => done ((first :: others).get i)

/-- A number from `low` to `low + width`. -/
def between (low width : Nat) : Gen Nat := upTo width fun i => done (low + i)

/-- The values of so many draws. -/
def replicate (g : Gen α) : Nat → Gen (List α)
  | 0 => done []
  | n + 1 => do
    let a ← g
    let rest ← g.replicate n
    return a :: rest

end Gen

/-! ## Chances -/

/-- A probability, given by the number of successes among the outcomes of a draw of 53 bits. -/
structure Chance where
  /-- The number of outcomes that count as a success. -/
  successes : Nat
deriving DecidableEq, Repr

namespace Chance

/-- The chance of `percent` hundredths, taken as the nearest number with a mantissa of 53 bits. The
percentage is to be more than 0 and less than 100. -/
def ofPercent (percent : Nat) : Chance :=
  -- the zeros between the binary point and the mantissa
  let zeros := (99 / percent).log2
  let mantissa := ((percent <<< (53 + zeros)) + 50) / 100
  ⟨(mantissa + (1 <<< zeros) - 1) >>> zeros⟩

/-- Whether a drawn number counts as a success. -/
def covers (c : Chance) (drawn : Fin Twister.outcomes53) : Bool := drawn.val < c.successes

end Chance

/-- Whether a draw succeeds that does so with the chance `c`. -/
def Gen.succeeds (c : Chance) : Gen Bool := .bits53 fun i => .done (c.covers i)

end Reckon.Draw
