import Reckon.Diagnostic
import Reckon.Text.Lines
import Reckon.Variables

/-!
# Sessions

What a running program can see and change: its variables, the text it has written, and the text it
may still read. What a step did before it failed stays done.
-/

namespace Reckon

/-- The state of a running program. -/
structure Session where
  /-- The variables. -/
  vars : Variables
  /-- All that has been written. -/
  output : String
  /-- What has not been read. -/
  input : List Char
deriving DecidableEq, Repr

/-- A session in which nothing has been written. -/
def Session.start (vars : Variables) (input : String) : Session :=
  ⟨vars, "", input.toList⟩

/-- Steps of a running program. -/
abbrev Run := EStateM Error Session

namespace Run

instance decidableEqResult {ε σ α : Type} [DecidableEq ε] [DecidableEq σ] [DecidableEq α] :
    DecidableEq (EStateM.Result ε σ α)
  | .ok a s, .ok b t => decidable_of_iff (a = b ∧ s = t) (by simp)
  | .error e s, .error f t => decidable_of_iff (e = f ∧ s = t) (by simp)
  | .ok .., .error .. => isFalse nofun
  | .error .., .ok .. => isFalse nofun

/-- Fails with a diagnostic that blames `span`. -/
def fail {α : Type} (span : Span) (cause : RuntimeCause) : Run α :=
  throw (.diagnostic ⟨.runtime cause, span⟩)

/-- Goes on with a result, or fails and blames `span`. -/
def ofResult {α : Type} (span : Span) : Except RuntimeCause α → Run α
  | .ok a => pure a
  | .error cause => fail span cause

/-- Goes on with a result, or fails. -/
def ofExcept {α : Type} : Except Error α → Run α
  | .ok a => pure a
  | .error e => throw e

/-- Writes a text. -/
def write (text : String) : Run Unit := modify fun s => { s with output := s.output ++ text }

/-- Reads a line; the result is empty only at the end of the input. -/
def readLine : Run (List Char) := modifyGet fun s =>
  (Text.firstLine s.input, { s with input := Text.afterFirstLine s.input })

/-- Gives a value to a variable. -/
def assign (ident : String) (value : Int) : Run Unit :=
  modify fun s => { s with vars := s.vars.set ident value }

/-- The value of a variable, which must have one. -/
def lookup (ident : String) : Run Int := do
  match (← get).vars.get? ident with
  | some value => return value
  | none => throw (.fault (.unknownName ident))

section

variable (s : Session)

@[simp] theorem run_fail {α : Type} (span : Span) (cause : RuntimeCause) :
    (fail span cause : Run α).run s = .error (.diagnostic ⟨.runtime cause, span⟩) s := rfl

@[simp] theorem run_ofResult_ok {α : Type} (span : Span) (a : α) :
    (ofResult span (.ok a)).run s = .ok a s := rfl

@[simp] theorem run_ofResult_error {α : Type} (span : Span) (cause : RuntimeCause) :
    (ofResult span (.error cause) : Run α).run s =
      .error (.diagnostic ⟨.runtime cause, span⟩) s := rfl

@[simp] theorem run_ofExcept_ok {α : Type} (a : α) : (ofExcept (.ok a)).run s = .ok a s := rfl

@[simp] theorem run_ofExcept_error {α : Type} (e : Error) :
    (ofExcept (.error e) : Run α).run s = .error e s := rfl

@[simp] theorem run_write (text : String) :
    (write text).run s = .ok () { s with output := s.output ++ text } := rfl

@[simp] theorem run_readLine :
    readLine.run s =
      .ok (Text.firstLine s.input) { s with input := Text.afterFirstLine s.input } := rfl

@[simp] theorem run_assign (ident : String) (value : Int) :
    (assign ident value).run s = .ok () { s with vars := s.vars.set ident value } := rfl

end

end Run

end Reckon
