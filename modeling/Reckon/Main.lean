import Reckon.Corpus.Command

/-!
# Entry points

All that touches the world outside: files, the standard streams and the exit status. A step of a
session is a function of the whole input it may read, so a step that runs out of input is
simply run again once another line has been typed; what it wrote before is then not shown twice.
-/

namespace Reckon.Main

/-- Reads a file. -/
def readFile (path : String) : IO (Except ReadFailure (List UInt8)) := do
  try
    let bytes ← IO.FS.readBinFile (Path.resolved path)
    return .ok bytes.toList
  catch
    | .noFileOrDirectory .. => return .error .noSuchFile
    | .inappropriateType _ code _ =>
      return .error (if code = 21 then .isFolder else .notAFolder)
    | e => return .error (.other (toString e))

/-- Shows what a session has written, apart from the first `shown` characters. -/
def display (s : Session) (shown : Nat) : IO Unit := do
  let out ← IO.getStdout
  out.putStr (String.ofList (s.output.toList.drop shown))
  out.flush

/-- Adds typed lines to the input of a session until they are enough for a step, and shows what
the step writes while it waits for them. The number tells how many characters have been shown. -/
partial def supply {α : Type} (step : Run α) (s : Session) (shown : Nat) : IO (Session × Nat) := do
  match step.run s with
  | .error (.diagnostic ⟨.runtime .endOfInput, _⟩) waiting =>
    display waiting shown
    let line ← (← IO.getStdin).getLine
    if line.isEmpty then return (s, waiting.output.length)
    else supply step { s with input := s.input ++ line.toList } waiting.output.length
  | _ => return (s, shown)

/-- Ends a command that met a fault. -/
def abort (f : Fault) : IO UInt32 := do
  (← IO.getStderr).putStr s!"{f.message}\n"
  return 1

/-- Talks with the user. -/
partial def talk (verbose : Bool) (vars : Variables) : IO UInt32 := do
  let out ← IO.getStdout
  out.putStr commandPrompt
  out.flush
  let line ← (← IO.getStdin).getLine
  if line.isEmpty then
    out.putStr "\n"
    return 0
  let (session, shown) ← supply (runLine line) (.start vars "") 0
  match (Console.answer (Command.note verbose) line).run ⟨session, ""⟩ with
  | .ok _ c =>
    display c.session shown
    (← IO.getStderr).putStr c.errors
    talk verbose c.session.vars
  | .error f c =>
    display c.session shown
    (← IO.getStderr).putStr c.errors
    abort f

/-- Shows an outcome, apart from the first `shown` characters of its output. -/
def conclude (o : Outcome) (shown : Nat) : IO UInt32 := do
  (← IO.getStdout).putStr (String.ofList (o.output.toList.drop shown))
  (← IO.getStderr).putStr o.errors
  match o.status with
  | .ok code => return code.toUInt32
  | .error f => abort f

/-- Runs, lists or talks. -/
def command (words : List String) : IO UInt32 := do
  let action := Command.Action.ofWords words
  match action with
  | .talk verbose => talk verbose ∅
  | .run _ path =>
    let file ← readFile path
    let step : Run Unit := match file with
      | .ok bytes => runFile bytes
      | .error _ => return ()
    let (session, shown) ← supply step (.start ∅ "") 0
    conclude (action.perform file (String.ofList session.input)) shown
  | .list _ path => conclude (action.perform (← readFile path) "") 0
  | .help | .refuse _ => conclude (action.perform (.error .noSuchFile) "") 0

/-- Stores a corpus: the entry point of a command of its own. -/
def corpus (words : List String) : IO UInt32 := do
  let here := toString (← IO.currentDir)
  let (outcome, files) := (Corpus.Action.ofWords words).perform here
  for (path, text) in files do
    IO.FS.createDirAll ("/".intercalate (path.splitOn "/").dropLast)
    IO.FS.writeFile path text
  conclude outcome 0

end Reckon.Main

/-- The command. -/
def main (words : List String) : IO UInt32 :=
  Reckon.Main.command words
