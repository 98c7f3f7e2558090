import Reckon.Proofs.Running

/-!
# Places are seen in errors only

Every node of a tree knows its place. Running a tree looks at places only to blame them: if the places
of a tree are moved, then the same happens, only that an error blames the moved place.

* `Expr.relocate`, `Stmt.relocate` and `Error.relocate` move all places, in any way.
* `Expr.evaluate_relocate` and `Stmts.run_relocate` say that running commutes with moving. For two trees
  that differ in their places this gives outcomes that differ in the place of an error
  (`Stmts.run_sameButForPlace`).
-/

namespace Reckon

/-! ## Moving places -/

/-- The expression with all its places moved. -/
def Expr.relocate (g : Span → Span) : Expr → Expr
  | name span ident => .name (g span) ident
  | number span value => .number (g span) value
  | input span prompt => .input (g span) prompt
  | binary span left op right => .binary (g span) (left.relocate g) op (right.relocate g)
  | misplaced kind span => .misplaced kind (g span)

/-- The statement with all its places moved. -/
def Stmt.relocate (g : Span → Span) : Stmt → Stmt
  | assign span ident value => .assign (g span) ident (value.relocate g)
  | print span value => .print (g span) (value.relocate g)
  | pass span => .pass (g span)
  | misplaced kind span => .misplaced kind (g span)

/-- The error with its place moved, if it has one. -/
def Error.relocate (g : Span → Span) : Error → Error
  | diagnostic d => .diagnostic { d with span := g d.span }
  | fault f => .fault f

/-! ## Errors that are renamed -/

namespace Run

variable {α β : Type} (f : Error → Error)

theorem adaptExcept_bind (x : Run α) (g : α → Run β) :
    (x >>= g).adaptExcept f = x.adaptExcept f >>= fun a => (g a).adaptExcept f := by
  funext s
  show EStateM.adaptExcept f (EStateM.bind x g) s =
    EStateM.bind (x.adaptExcept f) (fun a => (g a).adaptExcept f) s
  unfold EStateM.adaptExcept EStateM.bind
  dsimp only
  cases x s <;> rfl

theorem run_adaptExcept_of_ok {x : Run α} {a : α} {s s' : Session} (h : x.run s = .ok a s') :
    (x.adaptExcept f).run s = .ok a s' := by
  show EStateM.adaptExcept f x s = _
  unfold EStateM.adaptExcept
  rw [show x s = _ from h]

theorem run_adaptExcept_of_error {x : Run α} {e : Error} {s s' : Session}
    (h : x.run s = .error e s') : (x.adaptExcept f).run s = .error (f e) s' := by
  show EStateM.adaptExcept f x s = _
  unfold EStateM.adaptExcept
  rw [show x s = _ from h]

theorem ofExcept_mapError (result : Except Error α) :
    ofExcept (result.mapError f) = (ofExcept result).adaptExcept f := by
  cases result <;> rfl

theorem ofResult_relocate (g : Span → Span) (span : Span) (result : Except RuntimeCause α) :
    ofResult (g span) result = (ofResult span result).adaptExcept (Error.relocate g) := by
  cases result <;> rfl

end Run

/-! ## Running -/

section Effects

variable (g : Span → Span)

theorem numberOnLine_relocate (span : Span) (line : List Char) :
    numberOnLine (g span) line = (numberOnLine span line).mapError (Error.relocate g) := by
  unfold numberOnLine
  dsimp only
  split
  · rfl
  cases signedDigits? (Text.trim line) with
  | none => rfl
  | some pair =>
    dsimp only
    split
    · rfl
    split <;> rfl

theorem Expr.evaluateLeaf_relocate (e : Expr) :
    (e.relocate g).evaluateLeaf = e.evaluateLeaf.adaptExcept (Error.relocate g) := by
  cases e with
  | number span value => exact Run.ofResult_relocate g span _
  | name span ident =>
    rw [Expr.relocate, Expr.evaluateLeaf, Expr.evaluateLeaf, Run.adaptExcept_bind]
    refine bind_congr fun s => ?_
    cases s.vars.get? ident <;> rfl
  | input span prompt =>
    rw [Expr.relocate, Expr.evaluateLeaf, Expr.evaluateLeaf, readNumber_eq, readNumber_eq]
    simp only [Run.adaptExcept_bind, numberOnLine_relocate, Run.ofExcept_mapError]
    rfl
  | binary | misplaced => rfl

/-- **An expression has the same value wherever it stands.** -/
theorem Expr.evaluate_relocate (e : Expr) :
    (e.relocate g).evaluate = e.evaluate.adaptExcept (Error.relocate g) := by
  rw [Expr.evaluate_eq, Expr.evaluate_eq]
  induction e with
  | binary span l o r ihl ihr =>
    rw [Expr.relocate, Expr.evaluateDirectly, Expr.evaluateDirectly]
    simp only [ihl, ihr, Run.adaptExcept_bind, Run.ofResult_relocate]
  | name | number | input | misplaced => exact Expr.evaluateLeaf_relocate g _

theorem Stmt.run_relocate (s : Stmt) :
    (s.relocate g).run = s.run.adaptExcept (Error.relocate g) := by
  cases s with
  | assign span ident value =>
    rw [Stmt.relocate, Stmt.run, Stmt.run, Run.adaptExcept_bind, Expr.evaluate_relocate]
    rfl
  | print span value =>
    rw [Stmt.relocate, Stmt.run, Stmt.run, Run.adaptExcept_bind, Expr.evaluate_relocate]
    rfl
  | pass | misplaced => rfl

/-- **Statements do the same wherever they stand**, but for the places in errors. -/
theorem Stmts.run_relocate (ss : List Stmt) :
    (ss.map (Stmt.relocate g)).forM Stmt.run =
      (ss.forM Stmt.run).adaptExcept (Error.relocate g) := by
  induction ss with
  | nil => rfl
  | cons s ss ih =>
    show (s.relocate g).run >>= (fun _ => (ss.map (Stmt.relocate g)).forM Stmt.run) =
      (s.run >>= fun _ => ss.forM Stmt.run).adaptExcept (Error.relocate g)
    rw [Run.adaptExcept_bind, Stmt.run_relocate, ih]

end Effects

/-! ## Outcomes that differ in a place -/

/-- The errors say the same: they are faults that are the same, or diagnostics with the same cause, and
so of the same kind and in the same words. -/
def Error.SaysSame : Error → Error → Prop
  | diagnostic d, diagnostic d' => d.cause = d'.cause
  | fault f, fault f' => f = f'
  | _, _ => False

/-- Errors say the same if they cannot be told apart after a move. -/
theorem Error.saysSame_of_relocate {g : Span → Span} {e e' : Error}
    (h : e.relocate g = e'.relocate g) : e.SaysSame e' := by
  cases e with
  | diagnostic d =>
    cases e' with
    | diagnostic d' =>
      simp only [Error.relocate, Error.diagnostic.injEq, Diagnostic.mk.injEq] at h
      exact h.1
    | fault => cases h
  | fault f =>
    cases e' with
    | diagnostic => cases h
    | fault f' =>
      cases h
      exact rfl

/-- Two runs come to the same end: both succeed, or both fail with errors that say the same, and the
session is the same afterwards. -/
inductive SameButForPlace {α : Type} : (r r' : EStateM.Result Error Session α) → Prop
  | ok (a : α) (s : Session) : SameButForPlace (.ok a s) (.ok a s)
  | error {e e' : Error} (h : e.SaysSame e') (s : Session) :
      SameButForPlace (.error e s) (.error e' s)

theorem Run.sameButForPlace_of_adaptExcept {α : Type} {g : Span → Span} {x y : Run α}
    (h : x.adaptExcept (Error.relocate g) = y.adaptExcept (Error.relocate g)) (s : Session) :
    SameButForPlace (x.run s) (y.run s) := by
  have hrun := congrArg (EStateM.run · s) h
  cases hx : x.run s with
  | ok a s' =>
    rw [run_adaptExcept_of_ok _ hx] at hrun
    cases hy : y.run s with
    | ok b s'' =>
      rw [run_adaptExcept_of_ok _ hy] at hrun
      cases hrun
      exact .ok a s'
    | error e s'' =>
      rw [run_adaptExcept_of_error _ hy] at hrun
      cases hrun
  | error e s' =>
    rw [run_adaptExcept_of_error _ hx] at hrun
    cases hy : y.run s with
    | ok b s'' =>
      rw [run_adaptExcept_of_ok _ hy] at hrun
      cases hrun
    | error e' s'' =>
      rw [run_adaptExcept_of_error _ hy] at hrun
      simp only [EStateM.Result.error.injEq] at hrun
      obtain ⟨he, rfl⟩ := hrun
      exact .error (Error.saysSame_of_relocate he) s'

/-- **Statements that differ only in their places come to the same end.** -/
theorem Stmts.run_sameButForPlace {g : Span → Span} {ss ss' : List Stmt}
    (h : ss.map (Stmt.relocate g) = ss'.map (Stmt.relocate g)) (s : Session) :
    SameButForPlace ((ss.forM Stmt.run).run s) ((ss'.forM Stmt.run).run s) := by
  refine Run.sameButForPlace_of_adaptExcept (g := g) ?_ s
  rw [← Stmts.run_relocate, ← Stmts.run_relocate, h]

end Reckon
