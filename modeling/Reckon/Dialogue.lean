import Reckon.Source

/-!
# Dialogues

A dialogue reads a line, runs it, says what came of it, and asks for the next one, until the input
ends. Commands and the numbers that they ask for are lines of the same input. A line that fails
with a diagnostic is reported and forgotten; a fault ends the dialogue.
-/

namespace Reckon

/-- The session of a dialogue and what has been reported in its course. -/
structure Console where
  /-- The session that all lines run in. -/
  session : Session
  /-- Reports and notes. -/
  errors : String
deriving DecidableEq, Repr

/-- What the user is asked with. -/
def commandPrompt : String := ">>> "

namespace Console

/-- Steps of a dialogue. -/
abbrev Talk := EStateM Fault Console

/-- Does a step of the session. Its error, if it is a diagnostic, is the result. -/
def step {α : Type} (action : Run α) : Talk (Except Diagnostic α) := fun c =>
  match action.run c.session with
  | .ok a s => .ok (.ok a) { c with session := s }
  | .error (.diagnostic d) s => .ok (.error d) { c with session := s }
  | .error (.fault f) s => .error f { c with session := s }

/-- Writes where the program writes. -/
def write (text : String) : Talk Unit := do let _ ← step (Run.write text)

/-- Writes where errors are reported. -/
def report (text : String) : Talk Unit := modify fun c => { c with errors := c.errors ++ text }

/-- Runs a line and says what came of it; `note` words the events that are to be reported. -/
def answer (note : Event → Option String) (line : String) : Talk Unit := do
  (traceLine line).1.forM fun event =>
    match note event with
    | some text => report s!"{text}\n"
    | none => return ()
  match ← step (runLine line) with
  | .error d => report s!"{d.render none}\n"
  | .ok (some value) => write s!"{value}\n"
  | .ok none => return ()

/-- Asks for lines and answers them until the input ends, but at most `count` of them. -/
def converse (note : Event → Option String) : (count : Nat) → Talk Unit
  | 0 => write s!"{commandPrompt}\n"
  | count + 1 => do
    write commandPrompt
    match ← step Run.readLine with
    | .ok (c :: cs) =>
      answer note (String.ofList (c :: cs))
      converse note count
    | _ => write "\n"

/-- A whole dialogue. Every line has a character at least, so there are no more lines than
characters. -/
def dialogue (note : Event → Option String) : Talk Unit := do
  converse note (← get).session.input.length

end Console

end Reckon
