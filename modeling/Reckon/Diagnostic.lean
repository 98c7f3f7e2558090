import Reckon.Text.Utf8
import Reckon.Token
import Reckon.Tree

/-!
# What can go wrong

A `Diagnostic` is an error of the program being run: a cause, and the span of text that is to
blame. The causes are told apart by the stage that finds them, and each has its kind, its wording
and sometimes a hint.

A `Fault` is an error of whoever uses the library, or of the world around the program: a
token or a tree that cannot have come from a text, a step past the last token, a number too long to
read, a file that holds no text. No diagnostic is made of it, and it ends whatever was under way.
-/

namespace Reckon

/-! ## Kinds of diagnostics and their layout -/

/-- The kinds of diagnostics. -/
inductive DiagnosticKind
  | tokenization
  | parsing
  | unexpectedEnd
  | interpretation
  | overflow
deriving DecidableEq, Repr

/-- What a diagnostic of a kind says when it has nothing more to say. -/
def DiagnosticKind.title : DiagnosticKind → String
  | tokenization => "tokenization failed"
  | parsing => "parsing failed"
  | unexpectedEnd => "unexpected end of file"
  | interpretation => "interpretation failed"
  | overflow => "integer overflow"

/-- A diagnostic in words. -/
structure Report where
  /-- The kind of the diagnostic. -/
  kind : DiagnosticKind
  /-- The text that is to blame. -/
  span : Span
  /-- What is wrong; may be empty. -/
  message : String
  /-- What could be done about it. -/
  hint : Option String
deriving DecidableEq, Repr

/-- The text of a report: the place and the message on one line, a hint on the next. The title of
the kind stands in for an empty message, and an empty hint is none. -/
def Report.render (r : Report) (file : Option String) : String :=
  let message := if r.message = "" then r.kind.title else r.message
  let base := s!"{r.span.locate file}: {message}"
  match r.hint with
  | none | some "" => base
  | some hint => s!"{base}\nhint: {hint}"

/-! ## Causes -/

/-- The greatest number that a program may spell out, the greatest of 32 bits. -/
def maxLiteral : Nat := 4294967295

/-- Why a text has no tokens. -/
inductive LexicalCause
  /-- A character that begins no token. -/
  | unexpectedCharacter (c : Char)
  /-- A number, given by its digits, that is greater than `maxLiteral`. -/
  | literalTooLarge (digits : String)
  /-- A string whose line ends before its closing quote. -/
  | unterminatedString
deriving DecidableEq, Repr

namespace LexicalCause

/-- What is wrong. -/
def message : LexicalCause → String
  | unexpectedCharacter c => s!"unexpected character {Text.quoted (String.singleton c)}"
  | literalTooLarge digits => s!"integer literal {digits} is too large"
  | unterminatedString => "unterminated string literal"

/-- What could be done about it. A single slash is taken for half an operator. -/
def hint : LexicalCause → Option String
  | unexpectedCharacter c => if c = '/' then some "did you mean '//'?" else none
  | literalTooLarge _ => some s!"literals must not exceed {maxLiteral}"
  | unterminatedString => some "close the string with \""

end LexicalCause

/-- What the grammar would have allowed in the place of an unexpected token. -/
inductive Wanted
  | statement
  | assignment
  | expression
  | operatorOrEnd
  | arithmeticOperator
  | operand
  | endOfLine
deriving DecidableEq, Repr

/-- The words for what was wanted. -/
def Wanted.label : Wanted → String
  | statement => "a statement"
  | assignment => "'=' or '+='"
  | expression => "an expression"
  | operatorOrEnd => "an operator or end of line"
  | arithmeticOperator => "an arithmetic operator"
  | operand => "a name or number"
  | endOfLine => "end of line"

/-- Why tokens are no program. -/
inductive GrammarCause
  /-- The tokens end too early. -/
  | endOfInput
  /-- Only a token of the given kind, and value if one is given, could stand here. -/
  | mismatch (kind : TokenKind) (value : Option TokenValue) (got : Token)
  /-- The token cannot stand here. -/
  | unexpected (wanted : Wanted) (got : Token)
  /-- Expressions are nested within each other beyond the limit. -/
  | nestedTooDeeply
deriving DecidableEq, Repr

namespace GrammarCause

/-- The kind of diagnostic. -/
def kind : GrammarCause → DiagnosticKind
  | endOfInput => .unexpectedEnd
  | mismatch .. | unexpected .. | nestedTooDeeply => .parsing

/-- What is wrong. -/
def message : GrammarCause → String
  | endOfInput => "unexpected end of input"
  | mismatch kind value got => s!"expected {kind.describeWanted value}, got {got.describe}"
  | unexpected wanted got => s!"expected {wanted.label}, got {got.describe}"
  | nestedTooDeeply => "expression nested too deeply"

/-- What could be done about it. -/
def hint : GrammarCause → Option String
  | unexpected .statement _ => some "statements are pass, print(...) or name = expression"
  | unexpected .arithmeticOperator got =>
    some s!"{Text.quoted got.lexeme} is only valid after a name"
  | nestedTooDeeply => some "split it into several assignments"
  | _ => none

end GrammarCause

/-- Why a program cannot go on. -/
inductive RuntimeCause
  /-- The result of an operation is no 32-bit number. -/
  | resultOverflow
  /-- A literal is no 32-bit number. -/
  | literalOverflow (n : Int)
  /-- The divisor is zero. -/
  | divisionByZero
  /-- An operator that joins no operands. -/
  | notArithmetic (op : Operator)
  /-- The variable has no value. -/
  | undefinedName (ident : String)
  /-- A number was to be read and there is no more input. -/
  | endOfInput
  /-- A number was to be read and the line, without blanks at its ends, spells none. -/
  | invalidNumber (text : String)
  /-- The number that was read is no 32-bit number. -/
  | numberOutOfRange (text : String)
deriving DecidableEq, Repr

namespace RuntimeCause

/-- The kind of diagnostic. -/
def kind : RuntimeCause → DiagnosticKind
  | resultOverflow | literalOverflow _ => .overflow
  | _ => .interpretation

/-- What is wrong. -/
def message : RuntimeCause → String
  | resultOverflow => "result does not fit in a 32-bit signed integer"
  | literalOverflow n => s!"literal {n} does not fit in a 32-bit signed integer"
  | divisionByZero => "division by zero"
  | notArithmetic op => s!"{Text.quoted op.symbol} is not an arithmetic operator"
  | undefinedName ident => s!"name {Text.quoted ident} is not defined"
  | endOfInput => "end of input while reading a number"
  | invalidNumber text => s!"invalid number {Text.quoted text}"
  | numberOutOfRange text => s!"number {text} is out of range"

/-- What could be done about it. -/
def hint : RuntimeCause → Option String
  | invalidNumber _ => some "enter a whole number such as 42 or -7"
  | _ => none

end RuntimeCause

/-- Why a program fails, by the stage that finds it. -/
inductive Cause
  | lexical (c : LexicalCause)
  | grammar (c : GrammarCause)
  | runtime (c : RuntimeCause)
deriving DecidableEq, Repr

namespace Cause

/-- The kind of diagnostic. -/
def kind : Cause → DiagnosticKind
  | lexical _ => .tokenization
  | grammar c => c.kind
  | runtime c => c.kind

/-- What is wrong. -/
def message : Cause → String
  | lexical c => c.message
  | grammar c => c.message
  | runtime c => c.message

/-- What could be done about it. -/
def hint : Cause → Option String
  | lexical c => c.hint
  | grammar c => c.hint
  | runtime c => c.hint

/-- The one kind and value of token that would have done, where there is only one. -/
def expected? : Cause → Option (TokenKind × Option TokenValue)
  | grammar (.mismatch kind value _) => some (kind, value)
  | _ => none

/-- The token that was found in its stead. -/
def got? : Cause → Option Token
  | grammar (.mismatch _ _ got) | grammar (.unexpected _ got) => some got
  | _ => none

end Cause

/-! ## Diagnostics and faults -/

/-- An error of the program: a cause, and the text that is to blame. -/
structure Diagnostic where
  /-- Why the program fails. -/
  cause : Cause
  /-- The text that is to blame. -/
  span : Span
deriving DecidableEq, Repr

namespace Diagnostic

/-- The diagnostic in words. -/
def report (d : Diagnostic) : Report := ⟨d.cause.kind, d.span, d.cause.message, d.cause.hint⟩

/-- The text of the diagnostic. -/
def render (d : Diagnostic) (file : Option String) : String := d.report.render file

end Diagnostic

/-- The greatest number of digits that a number may be typed with. -/
def maxDigits : Nat := 4300

/-- An error that is not the program's own. -/
inductive Fault
  /-- A token does not carry the value that its kind calls for. -/
  | malformedToken
  /-- A step past the last token. -/
  | pastLastToken
  /-- There is no token at that index. -/
  | noSuchToken
  /-- The session has no variable of that name. -/
  | unknownName (ident : String)
  /-- The node has no value. -/
  | notAnExpression (kind : NodeKind)
  /-- The node cannot be run. -/
  | notAStatement (kind : NodeKind)
  /-- An operator found no operand. -/
  | missingOperand
  /-- A number of more than `maxDigits` digits. -/
  | tooManyDigits (count : Nat)
  /-- A file that is not encoded text. -/
  | undecodable (failure : Text.Utf8.Failure)
deriving DecidableEq, Repr

/-- The wording of a fault. -/
def Fault.message : Fault → String
  | malformedToken => ""
  | pastLastToken => "advanced past the last token"
  | noSuchToken => "list index out of range"
  | unknownName ident => Text.quoted ident
  | notAnExpression kind => s!"not an expression: {kind.label}"
  | notAStatement kind => s!"not a statement: {kind.label}"
  | missingOperand => "pop from empty list"
  | tooManyDigits count =>
    s!"Exceeds the limit ({maxDigits} digits) for integer string conversion: " ++
      s!"value has {count} digits; use sys.set_int_max_str_digits() to increase the limit"
  | undecodable failure => failure.message

/-- Anything that can go wrong. -/
inductive Error
  | diagnostic (d : Diagnostic)
  | fault (f : Fault)
deriving DecidableEq, Repr

end Reckon
