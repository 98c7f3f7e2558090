import Reckon.Dialogue
import Reckon.Folder
import Reckon.Options
import Reckon.Tree.Listing

/-!
# The command

The command runs the program in a file, lists it, or talks with the user when there is no file. The
words of the command line are turned into an `Action`; performing it takes what is in the file and
what the user types, and gives all that is to be shown and the exit status.
-/

namespace Reckon

/-- What a command shows, and how it ends. -/
structure Outcome where
  /-- The exit status, or the fault that ended the command. -/
  status : Except Fault Nat
  /-- What is written to the standard output. -/
  output : String
  /-- What is written to the standard error. -/
  errors : String

/-- How a command is to be used, and by which name. -/
structure Manual where
  /-- The name of the command. -/
  name : String
  /-- The forms of its command line. -/
  usage : String
  /-- All that help says after the usage. -/
  details : String

namespace Manual

/-- Answers a call for help. -/
def help (m : Manual) : Outcome := ⟨.ok 0, s!"{m.usage}\n\n{m.details}", ""⟩

/-- Refuses a command line. -/
def refuse (m : Manual) (message : String) : Outcome :=
  ⟨.ok 2, "", s!"{m.usage}\n{m.name}: error: {message}\n"⟩

end Manual

namespace Command

/-- How to use the command. -/
def manual : Manual where
  name := "slpy"
  usage := "usage: slpy [-h] [--dump] [-v] [file]"
  details := "The slpy programming language\n\n" ++
    "positional arguments:\n" ++
    "  file           Program to run; starts a REPL when omitted\n\n" ++
    "options:\n" ++
    "  -h, --help     show this help message and exit\n" ++
    "  --dump         Print the parsed AST instead of running it\n" ++
    "  -v, --verbose  Enable debug logging\n"

/-- What can be switched on. -/
inductive Switch
  | help
  | list
  | verbose
deriving DecidableEq, Repr

/-- The flags of the command. -/
def flags : List (Options.Flag Switch) :=
  [⟨.help, ["-h", "--help"], false⟩, ⟨.list, ["--dump"], false⟩,
   ⟨.verbose, ["-v", "--verbose"], false⟩]

/-- What the command is to do. -/
inductive Action
  /-- Show how to use the command. -/
  | help
  /-- Refuse the command line. -/
  | refuse (message : String)
  /-- Talk with the user. -/
  | talk (verbose : Bool)
  /-- List the program in a file. -/
  | list (verbose : Bool) (path : String)
  /-- Run the program in a file. -/
  | run (verbose : Bool) (path : String)
deriving DecidableEq, Repr

/-- Whether a switch is among what is asked for. -/
def asksFor (items : List (Options.Item Switch)) (switch : Switch) : Bool :=
  items.any fun
    | .set f => f.key = switch
    | _ => false

/-- The operand among what is asked for. -/
def operand? (items : List (Options.Item Switch)) : Option String :=
  items.findSome? fun
    | .operand text => some text
    | _ => none

/-- What a command line means. Help comes before any complaint about the words after it. -/
def Action.ofWords (words : List String) : Action :=
  let collected := Options.read flags true words
  let items := collected.items
  if asksFor items .help then .help
  else match collected.complaint with
    | some message => .refuse message
    | none =>
      let verbose := asksFor items .verbose
      match operand? items with
      | none => if asksFor items .list then .refuse "--dump needs a file" else .talk verbose
      | some path => if asksFor items .list then .list verbose path else .run verbose path

/-- The file that an action needs. -/
def Action.path? : Action → Option String
  | list _ path | run _ path => some path
  | help | refuse _ | talk _ => none

/-- A line of the log. -/
def logLine (part message : String) : String := s!"DEBUG slpy.{part}: {message}"

/-- The log line of an event, if there is to be a log. -/
def note (verbose : Bool) (event : Event) : Option String :=
  if verbose then some (logLine "api" event.message) else none

/-- The log of reading a program. -/
def readingLog (verbose : Bool) (events : List Event) : String :=
  String.join ((events.filterMap (note verbose)).map fun line => s!"{line}\n")

/-- How a command ends that met an error in the file at `path`. -/
def failed (path output log : String) : Error → Outcome
  | .diagnostic d => ⟨.ok 1, output, s!"{log}{d.render (some (Path.normalized path))}\n"⟩
  | .fault f => ⟨.error f, output, log⟩

/-- Reads the program in the file at `path` and goes on with it and with the log so far. -/
def withProgram (verbose : Bool) (path log : String) (file : Except ReadFailure (List UInt8))
    (next : String → Program → Outcome) : Outcome :=
  match file with
  | .error e =>
    ⟨.ok 1, "", s!"{log}slpy: cannot read {Path.normalized path}: {e.reason}\n"⟩
  | .ok bytes =>
    match sourceOfBytes bytes with
    | .error e => failed path "" log e
    | .ok source =>
      let (events, result) := traceProgram source
      let log := log ++ readingLog verbose events
      match result with
      | .error e => failed path "" log e
      | .ok p => next log p

/-- Performs an action, given what is in its file and what can be read from the standard input. -/
def Action.perform (action : Action) (file : Except ReadFailure (List UInt8)) (input : String) :
    Outcome :=
  match action with
  | help => manual.help
  | refuse message => manual.refuse message
  | talk verbose =>
    match (Console.dialogue (note verbose)).run ⟨.start ∅ input, ""⟩ with
    | .ok _ c => ⟨.ok 0, c.session.output, c.errors⟩
    | .error f c => ⟨.error f, c.session.output, c.errors⟩
  | list verbose path =>
    withProgram verbose path "" file fun log p => ⟨.ok 0, p.render, log⟩
  | run verbose path =>
    let start := logLine "cli" s!"running {Path.normalized path}"
    let log := if verbose then s!"{start}\n" else ""
    withProgram verbose path log file fun log p =>
      match p.run.run (.start ∅ input) with
      | .ok _ s => ⟨.ok 0, s.output, log⟩
      | .error e s => failed path s.output log e

/-- The whole command in a folder. -/
def runIn (folder : Folder) (words : List String) (input : String) : Outcome :=
  let action := Action.ofWords words
  let file := match action.path? with
    | some path => folder.read path
    | none => .error .noSuchFile
  action.perform file input

end Command

end Reckon
