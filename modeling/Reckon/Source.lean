import Reckon.Evaluation
import Reckon.Token.Lexer
import Reckon.Tree.Parser

/-!
# Running text

From the text of a program, a line or an expression to its effect on a session. Reading a text comes
before running it, so a text that cannot be read has no effect at all. Reading also leaves a trace
of *events*, for those who want to follow it.

How deeply expressions may be nested depends on the machine that reads them, and so it can be given
wherever a text is read. Where it is not, it is `nestingLimit`.
-/

namespace Reckon

/-- What is worth a note while texts are read. -/
inductive Event
  /-- A text was cut into so many tokens. -/
  | lexed (tokens : Nat)
  /-- Tokens were read as so many statements. -/
  | parsed (statements : Nat)
  /-- A line was no expression and is read as statements instead. -/
  | retried (source : String)
deriving DecidableEq, Repr

/-- The wording of an event. -/
def Event.message : Event → String
  | lexed tokens => s!"lexed {tokens} tokens"
  | parsed statements => s!"parsed {statements} statements"
  | retried source => s!"not an expression, running as statements: {Text.quoted source}"

/-! ## Reading -/

/-- The tokens of a text. -/
def readTokens (source : String) : Except Error (List Token) :=
  (tokenize source).mapError .diagnostic

/-- Reads tokens as a program. -/
def Program.ofTokens (tokens : List Token) (limit : Nat := nestingLimit) : Except Error Program :=
  (Parser.program limit).onTokens tokens

/-- Reads tokens as an expression. -/
def Expr.ofTokens (tokens : List Token) (limit : Nat := nestingLimit) : Except Error Expr :=
  (Parser.wholeExpression limit).onTokens tokens

/-- Reads a text as a program, and notes what happens. -/
def traceProgram (source : String) (limit : Nat := nestingLimit) :
    List Event × Except Error Program :=
  match readTokens source with
  | .error e => ([], .error e)
  | .ok tokens =>
    match Program.ofTokens tokens limit with
    | .error e => ([.lexed tokens.length], .error e)
    | .ok p => ([.lexed tokens.length, .parsed p.main.statements.length], .ok p)

/-- Reads a text as a program. -/
def Program.ofSource (source : String) (limit : Nat := nestingLimit) : Except Error Program :=
  (traceProgram source limit).2

/-- Reads a text as an expression. -/
def Expr.ofSource (source : String) (limit : Nat := nestingLimit) : Except Error Expr := do
  Expr.ofTokens (← readTokens source) limit

/-- A line, as it was read. -/
inductive Line
  /-- A line that has a value. -/
  | expression (e : Expr)
  /-- A line that has none. -/
  | statements (p : Program)
deriving DecidableEq, Repr

/-- Whether tokens begin like statements rather than like an expression: with one of the words that
only statements begin with, or not at all. -/
def startsStatements (tokens : List Token) : Bool :=
  match tokens.head? with
  | none => true
  | some t => t.isWord "pass" || t.isWord "print"

/-- Reads a line, and notes what happens. Unless it begins like statements it is taken for an
expression first, and for statements if it is none. -/
def traceLine (source : String) (limit : Nat := nestingLimit) :
    List Event × Except Error Line :=
  match readTokens source with
  | .error e => ([], .error e)
  | .ok tokens =>
    if startsStatements tokens then ([], .statements <$> Program.ofTokens tokens limit)
    else match Expr.ofTokens tokens limit with
      | .ok e => ([], .ok (.expression e))
      | .error (.diagnostic _) =>
        ([.retried source], .statements <$> Program.ofTokens tokens limit)
      | .error (.fault f) => ([], .error (.fault f))

/-- Reads a line. -/
def Line.ofSource (source : String) (limit : Nat := nestingLimit) : Except Error Line :=
  (traceLine source limit).2

/-- The text in a file, with its line ends unified. -/
def sourceOfBytes (bytes : List UInt8) : Except Error String :=
  match Text.Utf8.decode bytes with
  | .ok cs => .ok (String.ofList (Text.unifyLineEnds cs))
  | .error failure => .error (.fault (.undecodable failure))

/-! ## Running -/

/-- Runs a line; an expression gives its value. -/
def Line.run : Line → Run (Option Int)
  | expression e => some <$> e.evaluate
  | statements p => do p.run; return none

/-- Runs the text of a program. -/
def runSource (source : String) (limit : Nat := nestingLimit) : Run Unit := do
  let p ← Run.ofExcept (Program.ofSource source limit)
  p.run

/-- Evaluates the text of an expression. -/
def evaluateSource (source : String) (limit : Nat := nestingLimit) : Run Int := do
  let e ← Run.ofExcept (Expr.ofSource source limit)
  e.evaluate

/-- Runs the text of a line; a line that is an expression gives its value. -/
def runLine (source : String) (limit : Nat := nestingLimit) : Run (Option Int) := do
  let line ← Run.ofExcept (Line.ofSource source limit)
  line.run

/-- Runs the program in a file. -/
def runFile (bytes : List UInt8) (limit : Nat := nestingLimit) : Run Unit := do
  let source ← Run.ofExcept (sourceOfBytes bytes)
  runSource source limit

end Reckon
