import Reckon.Location
import Reckon.Operator
import Reckon.Text.Quoted

/-!
# Tokens

A token is a word of a program together with the place it was read at. The kind of a token says
how it may be used; a number carries its value and an operator token the operator it stands for.
Tokens may also be put together by hand, and then nothing ties the value to the kind:
`Token.IsWellFormed` singles out those whose value suits their kind.
-/

namespace Reckon

/-- How a token may be used. -/
inductive TokenKind
  | newline
  | comma
  | ident
  | number
  | string
  | lparen
  | rparen
  | op
deriving DecidableEq, Repr

namespace TokenKind

/-- The name of a kind where a token is listed. -/
def tag : TokenKind → String
  | newline => "NEWLINE"
  | comma => "COMMA"
  | ident => "IDENT"
  | number => "NUMBER"
  | string => "STRING"
  | lparen => "LPAREN"
  | rparen => "RPAREN"
  | op => "OP"

/-- The word for a kind in a message; a kind with one spelling is named by it. -/
def label : TokenKind → String
  | newline => "newline"
  | comma => ","
  | ident => "identifier"
  | number => "number"
  | string => "string"
  | lparen => "("
  | rparen => ")"
  | op => "operator"

end TokenKind

/-- What a token carries besides its spelling. -/
inductive TokenValue
  /-- The value of a number. -/
  | int (n : Int)
  /-- The operator that the spelling stands for. -/
  | op (o : Operator)
deriving DecidableEq, Repr

/-- A word of a program. -/
structure Token where
  /-- How the token may be used. -/
  kind : TokenKind
  /-- The spelling; for a string the text between its quotes. -/
  lexeme : String
  /-- Where the token stands. -/
  span : Span
  /-- What the token carries. -/
  value : Option TokenValue
deriving DecidableEq, Repr

namespace Token

/-- Numbers carry an integer and operator tokens an operator. -/
def IsWellFormed (t : Token) : Prop :=
  (t.kind = .number → ∃ n, t.value = some (.int n)) ∧
    (t.kind = .op → ∃ o, t.value = some (.op o))

/-- Whether the token has the given kind and, if one is asked for, the given value. -/
def isMatch (t : Token) (kind : TokenKind) (value : Option TokenValue) : Bool :=
  t.kind = kind && (value.isNone || t.value = value)

/-- Whether the token is the word `word`. -/
def isWord (t : Token) (word : String) : Bool := t.kind = .ident && t.lexeme = word

/-- How a message speaks of the token. -/
def describe (t : Token) : String :=
  match t.kind with
  | .newline => "end of line"
  | .string => s!"string \"{t.lexeme}\""
  | .ident | .number => s!"{t.kind.label} {Text.quoted t.lexeme}"
  | .comma | .lparen | .rparen | .op => Text.quoted t.lexeme

/-- How a token is listed: its kind, its spelling and its span. -/
def render (t : Token) : String :=
  s!"Token({t.kind.tag}, {Text.quoted t.lexeme}, {t.span.render})"

end Token

/-- How a message speaks of the token it would have wanted. -/
def TokenKind.describeWanted (kind : TokenKind) : Option TokenValue → String
  | some (.int n) => toString n
  | some (.op o) => Text.quoted o.symbol
  | none =>
    match kind with
    | .newline => "end of line"
    | .comma | .lparen | .rparen => Text.quoted kind.label
    | .ident | .number | .string | .op => kind.label

end Reckon
