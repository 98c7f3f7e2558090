import Reckon.Source

/-!
# What running leaves alone

Expressions are evaluated by a machine, and the same values, errors and effects come from recursion
on the tree. From there on no proof looks at the machine.

* `Expr.evaluate_eq` compares the two; `work_operand` is the induction behind it, for any work that
  is pending and any values that are there already.
* `Run.KeepsVars` says that a step does not touch the variables, be it that it fails.
  `Expr.evaluate_keepsVars` says it of expressions, which leaves assignments as the only statements
  that can change anything.
-/

namespace Reckon

/-! ## Evaluation by recursion -/

/-- The machine evaluates an expression as recursion does, pushes the value and goes on. -/
theorem work_operand (e : Expr) (pending : List Task) (values : List Int) :
    work (.operand e :: pending) values =
      e.evaluateDirectly >>= fun value => work pending (value :: values) := by
  induction e generalizing pending values with
  | binary span l o r ihl ihr =>
    rw [work, ihl, Expr.evaluateDirectly, bind_assoc]
    refine bind_congr fun left => ?_
    rw [ihr, bind_assoc]
    refine bind_congr fun right => ?_
    rw [work]
  | name | number | input | misplaced =>
    rw [work]
    · rfl
    · intro _ _ _ _ hbinary
      cases hbinary

/-- Recursion on the tree gives what the machine gives. -/
theorem Expr.evaluate_eq (e : Expr) : e.evaluate = e.evaluateDirectly := by
  rw [Expr.evaluate, work_operand, bind_assoc]
  have hwork (value : Int) : work [] [value] = pure [value] := by rw [work]
  simp only [hwork, pure_bind, bind_pure]

/-- An operation takes its operands from left to right. -/
theorem Expr.evaluate_binary (span : Span) (l r : Expr) (o : Operator) :
    (Expr.binary span l o r).evaluate = (do
      let left ← l.evaluate
      let right ← r.evaluate
      Run.ofResult span (o.apply left right)) := by
  simp only [Expr.evaluate_eq]
  rfl

/-! ## Numbers typed by the user -/

/-- The number that a line spells, or what is wrong with the line. -/
def numberOnLine (span : Span) (line : List Char) : Except Error Int :=
  let text := Text.trim line
  if line = [] then .error (.diagnostic ⟨.runtime .endOfInput, span⟩)
  else match signedDigits? text with
    | none => .error (.diagnostic ⟨.runtime (.invalidNumber (String.ofList text)), span⟩)
    | some (negative, digits) =>
      if maxDigits < digits.length then .error (.fault (.tooManyDigits digits.length))
      else if IsWord (signedValue negative digits) then .ok (signedValue negative digits)
      else .error (.diagnostic ⟨.runtime (.numberOutOfRange (String.ofList text)), span⟩)

/-- Reading a number has two effects, and what comes of it depends on the line alone. -/
theorem readNumber_eq (span : Span) (prompt : String) :
    readNumber span prompt = (do
      Run.write prompt
      let line ← Run.readLine
      Run.ofExcept (numberOnLine span line)) := by
  unfold readNumber
  refine bind_congr fun _ => bind_congr fun line => ?_
  rw [numberOnLine]
  by_cases hline : line = []
  · rw [if_pos hline, if_pos hline]
    rfl
  rw [if_neg hline, if_neg hline]
  dsimp only
  cases signedDigits? (Text.trim line) with
  | none => rfl
  | some pair =>
    obtain ⟨negative, digits⟩ := pair
    dsimp only
    by_cases hlong : maxDigits < digits.length
    · rw [if_pos hlong, if_pos hlong]
      rfl
    rw [if_neg hlong, if_neg hlong]
    split <;> rfl

/-! ## Variables that stay -/

namespace Run

variable {α β : Type}

/-- The session after a step, which may have failed. -/
def sessionAfter : EStateM.Result Error Session α → Session
  | .ok _ s | .error _ s => s

/-- The step leaves the variables as they are, even if it fails. -/
def KeepsVars (x : Run α) : Prop := ∀ s, (sessionAfter (x.run s)).vars = s.vars

namespace KeepsVars

theorem pure (a : α) : KeepsVars (Pure.pure a : Run α) := fun _ => rfl

theorem throw (e : Error) : KeepsVars (MonadExcept.throw e : Run α) := fun _ => rfl

theorem get : KeepsVars (MonadState.get : Run Session) := fun _ => rfl

theorem write (text : String) : KeepsVars (Run.write text) := fun _ => rfl

theorem readLine : KeepsVars Run.readLine := fun _ => rfl

theorem bind {x : Run α} {f : α → Run β} (hx : KeepsVars x) (hf : ∀ a, KeepsVars (f a)) :
    KeepsVars (x >>= f) := by
  intro s
  have hvars := hx s
  rw [EStateM.run_bind]
  cases hrun : x.run s with
  | ok a s' =>
    rw [hrun] at hvars
    exact (hf a s').trans hvars
  | error e s' =>
    rw [hrun] at hvars
    exact hvars

theorem ofExcept (result : Except Error α) : KeepsVars (Run.ofExcept result) := by
  cases result with
  | ok a => exact .pure a
  | error e => exact .throw e

theorem ofResult (span : Span) (result : Except RuntimeCause α) :
    KeepsVars (Run.ofResult span result) := by
  cases result with
  | ok a => exact .pure a
  | error cause => exact .throw _

end KeepsVars

end Run

open Run (KeepsVars)

theorem Expr.evaluateLeaf_keepsVars (e : Expr) : KeepsVars e.evaluateLeaf := by
  cases e with
  | number span value => exact .ofResult _ _
  | name span ident =>
    refine .bind .get fun s => ?_
    cases s.vars.get? ident with
    | none => exact .throw _
    | some value => exact .pure value
  | input span prompt =>
    rw [Expr.evaluateLeaf, readNumber_eq]
    exact .bind (.write prompt) fun _ => .bind .readLine fun _ => .ofExcept _
  | binary | misplaced => exact .throw _

/-- **An expression never changes a variable**, whether it has a value or fails. -/
theorem Expr.evaluate_keepsVars (e : Expr) : KeepsVars e.evaluate := by
  rw [Expr.evaluate_eq]
  induction e with
  | binary span l o r ihl ihr =>
    exact .bind ihl fun left => .bind ihr fun right => .ofResult span _
  | name | number | input | misplaced => exact Expr.evaluateLeaf_keepsVars _

end Reckon
