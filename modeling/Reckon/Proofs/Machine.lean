import Reckon.Proofs.Running

/-!
# The machine has its operands

Expressions are evaluated on a stack of values, and an operator takes two of them off. That they are
there is nowhere checked beforehand: it follows from the order in which the work was laid out.

* `Run.Ensures` says what a step gives if it succeeds and how it may fail. Steps are put together by
  `Run.Ensures.bind`.
* `tally` counts values instead of computing them. It is the same before and after every step of the
  machine, which is what `work_ensures` goes by, for any work that is pending.
* `Expr.Meets` follows the recursion to a part of the tree. A node that is no expression is a failure
  from the moment it is met, and not before: `Expr.evaluateDirectly_notAnExpression_iff`.
-/

namespace Reckon

/-! ## What steps give and how they fail -/

namespace Run

variable {α β : Type} {Q : α → Prop} {R : β → Prop} {P : Error → Prop}

/-- What the step gives satisfies `Q`, and the error satisfies `P` if it fails. -/
def Ensures (Q : α → Prop) (P : Error → Prop) (x : Run α) : Prop := ∀ s,
  match x.run s with
  | .ok a _ => Q a
  | .error e _ => P e

namespace Ensures

theorem pure {a : α} (h : Q a) : Ensures Q P (Pure.pure a : Run α) := fun _ => h

theorem throw {e : Error} (h : P e) : Ensures Q P (MonadExcept.throw e : Run α) := fun _ => h

theorem get : Ensures (fun _ => True) P (MonadState.get : Run Session) := fun _ => trivial

theorem write (text : String) : Ensures (fun _ => True) P (Run.write text) := fun _ => trivial

theorem readLine : Ensures (fun _ => True) P Run.readLine := fun _ => trivial

theorem bind {x : Run α} {f : α → Run β} (hx : Ensures Q P x)
    (hf : ∀ a, Q a → Ensures R P (f a)) : Ensures R P (x >>= f) := by
  intro s
  have hs := hx s
  rw [EStateM.run_bind]
  cases hrun : x.run s with
  | ok a s' =>
    rw [hrun] at hs
    exact hf a hs s'
  | error e s' =>
    rw [hrun] at hs
    exact hs

theorem mono {P' : Error → Prop} {x : Run α} (hx : Ensures Q P x) (h : ∀ e, P e → P' e) :
    Ensures Q P' x := by
  intro s
  have hs := hx s
  cases hrun : x.run s with
  | ok a s' =>
    rw [hrun] at hs
    exact hs
  | error e s' =>
    rw [hrun] at hs
    exact h e hs

theorem ofResult (span : Span) (result : Except RuntimeCause α)
    (hok : ∀ a, result = .ok a → Q a)
    (herr : ∀ cause, result = .error cause → P (.diagnostic ⟨.runtime cause, span⟩)) :
    Ensures Q P (Run.ofResult span result) := by
  cases result with
  | ok a => exact .pure (hok a rfl)
  | error cause => exact .throw (herr cause rfl)

theorem ofExcept (result : Except Error α) (hok : ∀ a, result = .ok a → Q a)
    (herr : ∀ e, result = .error e → P e) : Ensures Q P (Run.ofExcept result) := by
  cases result with
  | ok a => exact .pure (hok a rfl)
  | error e => exact .throw (herr e rfl)

end Ensures

end Run

open Run (Ensures)

/-- A line that spells no number is the user's mistake, or its number is too long to read. -/
theorem numberOnLine_eq_error {span : Span} {line : List Char} {e : Error}
    (h : numberOnLine span line = .error e) :
    (∃ cause, e = .diagnostic ⟨.runtime cause, span⟩ ∧ ∀ o, cause ≠ .notArithmetic o) ∨
      ∃ count, e = .fault (.tooManyDigits count) ∧ maxDigits < count := by
  unfold numberOnLine at h
  dsimp only at h
  split at h
  · cases h
    exact .inl ⟨_, rfl, nofun⟩
  split at h
  · cases h
    exact .inl ⟨_, rfl, nofun⟩
  split at h
  · cases h
    exact .inr ⟨_, rfl, ‹_›⟩
  split at h
  · cases h
  · cases h
    exact .inl ⟨_, rfl, nofun⟩

/-- The expression has a value of its own: it is a name, a literal or a number asked of the user. -/
def Expr.isLeaf : Expr → Bool
  | name .. | number .. | input .. => true
  | binary .. | misplaced .. => false

/-- If the error is a fault, then a number was typed with too many digits. -/
def Error.IsOfLeaf (e : Error) : Prop := ∀ f, e = .fault f → ∃ count, f = .tooManyDigits count

theorem Error.isOfLeaf_diagnostic (d : Diagnostic) : Error.IsOfLeaf (.diagnostic d) := nofun

theorem Error.IsOfLeaf.ne_fault {e : Error} (h : e.IsOfLeaf) {f : Fault}
    (hf : ∀ count, f ≠ .tooManyDigits count) : e ≠ .fault f := by
  intro he
  obtain ⟨count, hcount⟩ := h f he
  exact hf count hcount

/-- A leaf asks nothing of the stack, and it is an expression. -/
theorem Expr.evaluateLeaf_isOfLeaf {e : Expr} (he : e.isLeaf) :
    Ensures (fun _ => True) Error.IsOfLeaf e.evaluateLeaf := by
  cases e with
  | number span value =>
    exact .ofResult span _ (fun _ _ => trivial) fun _ _ => Error.isOfLeaf_diagnostic _
  | name span ident =>
    refine Ensures.get.bind fun s _ => ?_
    cases s.vars.get? ident with
    | none => exact .throw (Error.isOfLeaf_diagnostic _)
    | some value => exact .pure trivial
  | input span prompt =>
    rw [Expr.evaluateLeaf, readNumber_eq]
    refine (Ensures.write prompt).bind fun _ _ => Ensures.readLine.bind fun line _ =>
      .ofExcept _ (fun _ _ => trivial) fun e he => ?_
    obtain ⟨cause, rfl, -⟩ | ⟨count, rfl, -⟩ := numberOnLine_eq_error he
    · exact Error.isOfLeaf_diagnostic _
    · intro f hf
      cases hf
      exact ⟨count, rfl⟩
  | binary | misplaced => cases he

theorem Expr.evaluateLeaf_ensures (e : Expr) :
    Ensures (fun _ => True) (· ≠ .fault .missingOperand) e.evaluateLeaf := by
  cases hleaf : e.isLeaf with
  | true => exact (Expr.evaluateLeaf_isOfLeaf hleaf).mono fun _ he => he.ne_fault nofun
  | false =>
    cases e with
    | binary | misplaced => exact .throw (by simp)
    | name | number | input => cases hleaf

/-! ## Counting values -/

/-- The number of values that there will be when the pending work is done, if there are `n` of them
now. There is no such number if an operator would lack an operand. -/
def tally : (pending : List Task) → (n : Nat) → Option Nat
  | [], n => some n
  | .operand _ :: pending, n => tally pending (n + 1)
  | .operate .. :: pending, n + 2 => tally pending (n + 1)
  | .operate .. :: _, _ => none

/-- **The machine always has its operands**, and it leaves as many values as were counted. -/
theorem work_ensures {pending : List Task} {values : List Int} {n : Nat}
    (h : tally pending values.length = some n) :
    Ensures (fun left => left.length = n) (· ≠ .fault .missingOperand) (work pending values) := by
  fun_induction work pending values with
  | case1 values =>
    -- all work is done, and the values that are there are those that were counted
    refine .pure ?_
    simpa [tally] using h
  | case2 span l op r pending values ih => exact ih h
  | case3 e pending values _ ih =>
    exact .bind e.evaluateLeaf_ensures fun value _ => ih value h
  | case4 span op pending right left values ih =>
    have hresult : Ensures (fun _ => True) (· ≠ .fault .missingOperand)
        (Run.ofResult span (op.apply left right)) :=
      .ofResult span _ (fun _ _ => trivial) fun _ _ => (Error.isOfLeaf_diagnostic _).ne_fault nofun
    exact hresult.bind fun value _ => ih value h
  | case5 span op pending values hshort =>
    -- with fewer than two values there is nothing to count
    cases values with
    | nil => cases h
    | cons right values =>
      cases values with
      | nil => cases h
      | cons left values => exact absurd rfl (hshort right left values)

/-! ## Nodes that are no expressions -/

/-- Evaluating an expression from the session `s` by recursion comes to its part `part`, and the
session is `s'` then. A right operand is come to if the left one has a value. -/
inductive Expr.Meets (part : Expr) (s' : Session) : (e : Expr) → (s : Session) → Prop
  | here : Meets part s' part s'
  | left {span : Span} {l r : Expr} {o : Operator} {s : Session} (h : Meets part s' l s) :
      Meets part s' (.binary span l o r) s
  | right {span : Span} {l r : Expr} {o : Operator} {s s₁ : Session} {left : Int}
      (hl : l.evaluateDirectly.run s = .ok left s₁) (h : Meets part s' r s₁) :
      Meets part s' (.binary span l o r) s

/-- Every part of the expression has a meaning: no node is misplaced, and all operators are of
arithmetic. -/
def Expr.IsProper : Expr → Prop
  | name .. | number .. | input .. => True
  | binary _ left op right => op.isArithmetic ∧ left.IsProper ∧ right.IsProper
  | misplaced .. => False

section Misplaced

variable {e l r : Expr} {span : Span} {o : Operator} {s s' s₁ : Session} {kind : NodeKind}

/-- Only an operator of arithmetic has a result. -/
theorem Operator.isArithmetic_of_apply {left right n : Int} (h : o.apply left right = .ok n) :
    o.isArithmetic := by
  cases o with
  | assign | addAssign => cases h
  | plus | minus | times | div | mod | pow => rfl

/-- What has a value is proper. -/
theorem Expr.evaluate_ensures_isProper (e : Expr) :
    Ensures (fun _ => e.IsProper) (fun _ => True) e.evaluate := by
  rw [Expr.evaluate_eq]
  induction e with
  | binary span l o r ihl ihr =>
    exact ihl.bind fun left hl => ihr.bind fun right hr =>
      .ofResult span _ (fun _ hn => ⟨Operator.isArithmetic_of_apply hn, hl, hr⟩) fun _ _ => trivial
  | name | number | input =>
    exact (Expr.evaluateLeaf_isOfLeaf rfl).mono fun _ _ => trivial
  | misplaced => exact .throw trivial

theorem Expr.evaluateDirectly_ne_notAnExpression (he : e.isLeaf) :
    e.evaluateDirectly.run s ≠ .error (.fault (.notAnExpression kind)) s' := by
  intro h
  have hdirect : e.evaluateDirectly = e.evaluateLeaf := by
    cases e with
    | name | number | input => rfl
    | binary | misplaced => cases he
  have hleaf := Expr.evaluateLeaf_isOfLeaf he s
  rw [← hdirect, h] at hleaf
  obtain ⟨count, hcount⟩ := hleaf (.notAnExpression kind) rfl
  cases hcount

theorem Expr.evaluateDirectly_binary_of_error {error : Error}
    (hl : l.evaluateDirectly.run s = .error error s₁) :
    (Expr.binary span l o r).evaluateDirectly.run s = .error error s₁ := by
  rw [Expr.evaluateDirectly, EStateM.run_bind, hl]

theorem Expr.evaluateDirectly_binary_of_ok {left : Int}
    (hl : l.evaluateDirectly.run s = .ok left s₁) :
    (Expr.binary span l o r).evaluateDirectly.run s =
      (r.evaluateDirectly >>= fun right => Run.ofResult span (o.apply left right)).run s₁ := by
  rw [Expr.evaluateDirectly, EStateM.run_bind, hl]

/-- A misplaced node that is met is a failure, and what was done before stays done. -/
theorem Expr.Meets.evaluateDirectly (h : Expr.Meets (.misplaced kind span) s' e s) :
    e.evaluateDirectly.run s = .error (.fault (.notAnExpression kind)) s' := by
  induction h with
  | here => rfl
  | left h ih => exact Expr.evaluateDirectly_binary_of_error ih
  | right hl h ih => rw [Expr.evaluateDirectly_binary_of_ok hl, EStateM.run_bind, ih]

/-- **A misplaced node fails where the recursion meets it**, and nothing else fails like that. -/
theorem Expr.evaluateDirectly_notAnExpression_iff :
    e.evaluateDirectly.run s = .error (.fault (.notAnExpression kind)) s' ↔
      ∃ span, Expr.Meets (.misplaced kind span) s' e s := by
  refine ⟨fun h => ?_, fun ⟨_, h⟩ => h.evaluateDirectly⟩
  induction e generalizing s with
  | binary span l o r ihl ihr =>
    cases hl : l.evaluateDirectly.run s with
    | error error s₁ =>
      rw [Expr.evaluateDirectly_binary_of_error hl] at h
      obtain ⟨place, hmeets⟩ := ihl (hl.trans h)
      exact ⟨place, .left hmeets⟩
    | ok left s₁ =>
      rw [Expr.evaluateDirectly_binary_of_ok hl, EStateM.run_bind] at h
      cases hr : r.evaluateDirectly.run s₁ with
      | error error s₂ =>
        rw [hr] at h
        obtain ⟨place, hmeets⟩ := ihr (hr.trans h)
        exact ⟨place, .right hl hmeets⟩
      | ok right s₂ =>
        -- both operands have a value, and the operator fails with a diagnostic if it fails
        rw [hr] at h
        dsimp only at h
        cases hresult : o.apply left right with
        | ok n =>
          rw [hresult] at h
          cases h
        | error cause =>
          rw [hresult] at h
          cases h
  | name | number | input =>
    exact absurd h (Expr.evaluateDirectly_ne_notAnExpression rfl)
  | misplaced k span =>
    cases h
    exact ⟨span, .here⟩

end Misplaced

/-- **The machine evaluates as recursion on the tree does.** It gives the same value or the same
error, with the same effects, for every tree and from every session. No variable is changed. On the
way every operator finds its operands on the stack, and at the end there is one value on it. A node
that is no expression is a failure where the recursion meets it and leaves the session as it is then;
so a tree with such a node has no value. -/
theorem Expr.evaluate_byMachine (e : Expr) :
    e.evaluate = e.evaluateDirectly ∧ Run.KeepsVars e.evaluate ∧
      Ensures (fun values => values.length = 1) (· ≠ .fault .missingOperand)
        (work [.operand e] []) ∧
      (∀ s s' kind, e.evaluate.run s = .error (.fault (.notAnExpression kind)) s' ↔
        ∃ span, Expr.Meets (.misplaced kind span) s' e s) ∧
      Ensures (fun _ => e.IsProper) (fun _ => True) e.evaluate := by
  refine ⟨e.evaluate_eq, e.evaluate_keepsVars, work_ensures rfl, fun s s' kind => ?_,
    e.evaluate_ensures_isProper⟩
  rw [e.evaluate_eq]
  exact Expr.evaluateDirectly_notAnExpression_iff

/-- The statement is met after a number was asked for, and before anything is divided by zero. -/
theorem Expr.evaluate_byMachine_misplaced :
    let spot : Span := .point ⟨1, 1⟩
    let asks := Expr.input spot "?"
    let divides := Expr.binary spot (.number spot 1) .div (.number spot 0)
    let e := Expr.binary spot (.binary spot asks .plus (.misplaced .pass spot)) .times divides
    e.evaluate.run (.start ∅ "7\n8\n") =
      .error (.fault (.notAnExpression .pass)) ⟨∅, "?", "8\n".toList⟩ := by
  intro spot asks divides e
  have hasks : asks.evaluateDirectly.run (.start ∅ "7\n8\n") = .ok 7 ⟨∅, "?", "8\n".toList⟩ := by
    decide +kernel
  obtain ⟨-, -, -, hmisplaced, -⟩ := Expr.evaluate_byMachine e
  exact (hmisplaced _ _ _).2 ⟨spot, .left (.right hasks .here)⟩

end Reckon
