import Reckon.Location
import Reckon.Operator

/-!
# Syntax trees

A program is a block of statements; a statement assigns, prints or does nothing; an expression is
built from names, numbers and requests for input by operators. Every expression and statement keeps
the span of text it was read from.

A tree that was put together by hand may hold a node where a node of that kind has no meaning. Such
a node is *misplaced*: nothing but its kind and its span will ever be asked of it, so that is what
the tree keeps.
-/

namespace Reckon

/-- The kinds of nodes a tree may hold. `leaf` and `statement` are the kinds of nodes about which
nothing more is known. -/
inductive NodeKind
  | leaf
  | name
  | number
  | input
  | binary
  | statement
  | assign
  | print
  | pass
  | block
  | program
deriving DecidableEq, Repr

/-- The name of a kind of node in listings and messages. -/
def NodeKind.label : NodeKind → String
  | leaf => "Leaf"
  | name => "Name"
  | number => "Number"
  | input => "Input"
  | binary => "BinaryOp"
  | statement => "Statement"
  | assign => "Assign"
  | print => "Print"
  | pass => "Pass"
  | block => "Block"
  | program => "Program"

/-- An expression. -/
inductive Expr
  /-- The value of a variable. -/
  | name (span : Span) (ident : String)
  /-- A literal. -/
  | number (span : Span) (value : Int)
  /-- A number asked of the user. -/
  | input (span : Span) (prompt : String)
  /-- Two operands joined by an operator. -/
  | binary (span : Span) (left : Expr) (op : Operator) (right : Expr)
  /-- A node that is no expression. -/
  | misplaced (kind : NodeKind) (span : Span)
deriving DecidableEq, Repr

namespace Expr

/-- Where the expression stands. -/
def span : Expr → Span
  | name s _ | number s _ | input s _ | binary s _ _ _ | misplaced _ s => s

/-- The kind of the topmost node. -/
def kind : Expr → NodeKind
  | name .. => .name
  | number .. => .number
  | input .. => .input
  | binary .. => .binary
  | misplaced k _ => k

/-- Two operands joined by an operator, spanning both. -/
def join (left : Expr) (op : Operator) (right : Expr) : Expr :=
  binary (left.span.join right.span) left op right

/-- The number of nodes. -/
def size : Expr → Nat
  | binary _ l _ r => l.size + r.size + 1
  | _ => 1

theorem size_pos (e : Expr) : 0 < e.size := by cases e <;> simp [size]

end Expr

/-- A statement. -/
inductive Stmt
  /-- Gives a variable the value of an expression. -/
  | assign (span : Span) (ident : String) (value : Expr)
  /-- Writes the value of an expression. -/
  | print (span : Span) (value : Expr)
  /-- Does nothing. -/
  | pass (span : Span)
  /-- A node that is no statement. -/
  | misplaced (kind : NodeKind) (span : Span)
deriving DecidableEq, Repr

namespace Stmt

/-- Where the statement stands. -/
def span : Stmt → Span
  | assign s _ _ | print s _ | pass s | misplaced _ s => s

/-- The kind of the topmost node. -/
def kind : Stmt → NodeKind
  | assign .. => .assign
  | print .. => .print
  | pass .. => .pass
  | misplaced k _ => k

end Stmt

/-- A sequence of statements. -/
structure Block where
  /-- The statements, in the order in which they run. -/
  statements : List Stmt
deriving DecidableEq, Repr

/-- A block spans from its first statement to its last; an empty one stands at the origin. -/
def Block.span (b : Block) : Span :=
  match b.statements.head?, b.statements.getLast? with
  | some first, some last => first.span.join last.span
  | _, _ => .point .origin

/-- A whole program. -/
structure Program where
  /-- What the program does. -/
  main : Block
deriving DecidableEq, Repr

/-- A program spans its main block. -/
def Program.span (p : Program) : Span := p.main.span

/-- Any node of a tree. -/
inductive Node
  | expr (e : Expr)
  | stmt (s : Stmt)
  | block (b : Block)
  | program (p : Program)
deriving DecidableEq, Repr

namespace Node

/-- Where the node stands. -/
def span : Node → Span
  | expr e => e.span
  | stmt s => s.span
  | block b => b.span
  | program p => p.span

/-- The kind of the node. -/
def kind : Node → NodeKind
  | expr e => e.kind
  | stmt s => s.kind
  | block _ => .block
  | program _ => .program

/-- The node in the place of an expression. -/
def toExpr : Node → Expr
  | expr e => e
  | n => .misplaced n.kind n.span

/-- The node in the place of a statement. -/
def toStmt : Node → Stmt
  | stmt s => s
  | n => .misplaced n.kind n.span

end Node

end Reckon
