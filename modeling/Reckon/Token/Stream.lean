import Reckon.Diagnostic

/-!
# Token streams

A stream is a list of tokens with a position in it, the index of the current token. Reading moves
the position forward and never beyond the end; `reset` goes back to the start. A step that fails
leaves the stream as it is.
-/

namespace Reckon

/-- Tokens and the position of a reader. -/
structure TokenStream where
  /-- All tokens, read or not. -/
  tokens : List Token
  /-- How many tokens have been read. -/
  index : Nat
deriving DecidableEq, Repr

/-- The stream at the start of the tokens. -/
def TokenStream.ofTokens (tokens : List Token) : TokenStream := ⟨tokens, 0⟩

namespace TokenStream

variable (s : TokenStream)

/-- The tokens that have not been read. -/
def rest : List Token := s.tokens.drop s.index

/-- Whether all tokens have been read. -/
def exhausted : Bool := s.tokens.length ≤ s.index

/-- The token at the position. -/
def current? : Option Token := s.tokens[s.index]?

/-- The place where the tokens end: that of the last character of the last token. -/
def endSpan : Span :=
  match s.tokens.getLast? with
  | none => .point .origin
  | some last => .point last.span.stop

/-- The span of the current token, or the end of the tokens when there is none. -/
def here : Span := (s.current?.map Token.span).getD s.endSpan

/-- The token at index `i`; a negative index counts from the end. -/
def get (i : Int) : Except Fault Token :=
  let j := if i < 0 then i + s.tokens.length else i
  if j < 0 then .error .noSuchToken
  else match s.tokens[j.toNat]? with
    | some t => .ok t
    | none => .error .noSuchToken

/-- The token `n` places after the current one, if the tokens reach that far. Looking back beyond
the first token goes on at the last one. -/
def peek (n : Int) : Except Fault (Option Token) :=
  let j := s.index + n
  if s.tokens.length ≤ j then .ok none else some <$> s.get j

/-- A token added at the end. -/
def append (t : Token) : TokenStream := { s with tokens := s.tokens ++ [t] }

/-- The position put back to the start. -/
def reset : TokenStream := { s with index := 0 }

end TokenStream

/-- Steps that read a stream. -/
abbrev StreamM := EStateM Error TokenStream

namespace StreamM

/-- Fails at the current position. -/
def fail {α : Type} (cause : GrammarCause) : StreamM α := fun s =>
  .error (.diagnostic ⟨.grammar cause, s.here⟩) s

/-- The token at the position, which must be there. -/
def current : StreamM Token := do
  match (← get).current? with
  | some t => return t
  | none => fail .endOfInput

/-- Moves past the current token, which must be there. -/
def advance : StreamM Unit := do
  if (← get).exhausted then throw (.fault .pastLastToken)
  modify fun s => { s with index := s.index + 1 }

/-- Reads the current token. -/
def take : StreamM Token := do
  let t ← current
  modify fun s => { s with index := s.index + 1 }
  return t

/-- Reads the current token, which must be of the given kind and have the given value if there is
one. -/
def expect (kind : TokenKind) (value : Option TokenValue) : StreamM Token := do
  let t ← current
  if t.isMatch kind value then
    modify fun s => { s with index := s.index + 1 }
    return t
  else fail (.mismatch kind value t)

end StreamM

end Reckon
