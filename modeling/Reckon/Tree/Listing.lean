import Reckon.Tree

/-!
# Listings

A tree is listed one node a line, each below its parent and two columns further in. Operator
chains may be very long, so expressions are listed with a stack of pending operands; the listing is
the one that plain recursion on the tree gives.
-/

namespace Reckon

/-- A span as it stands in a listing. -/
def Span.listed (s : Span) : String := s!"[{s.render}]"

/-- A line that begins `depth` columns in; a negative depth is as good as none. -/
def indented (depth : Int) (line : String) : String :=
  String.ofList (List.replicate depth.toNat ' ') ++ line

namespace Expr

/-- The line of the topmost node. -/
def headline : Expr → String
  | name s ident => s!"Name {ident} {s.listed}"
  | number s value => s!"Number {value} {s.listed}"
  | input s prompt => s!"Input \"{prompt}\" {s.listed}"
  | binary s _ op _ => s!"BinaryOp {op.symbol} {s.listed}"
  | misplaced kind _ => s!"<unsupported expression: {kind.label}>"

/-- The operands of the topmost node. -/
def operands : Expr → List Expr
  | binary _ l _ r => [l, r]
  | _ => []

/-- The lines of an expression, by recursion: its own, then those of its operands. -/
def lines (depth : Int) : Expr → List String
  | e@(binary _ l _ r) =>
    indented depth e.headline :: (l.lines (depth + 2) ++ r.lines (depth + 2))
  | e => [indented depth e.headline]

/-- The number of nodes in a stack of expressions. -/
def pendingSize : List (Expr × Int) → Nat
  | [] => 0
  | (e, _) :: pending => e.size + pendingSize pending

/-- Lists the expressions on a stack, each at its own depth. The lines so far are in `before`, the
latest first. -/
def listPending (before : List String) : List (Expr × Int) → List String
  | [] => before.reverse
  | (binary s l op r, depth) :: pending =>
    listPending (indented depth (binary s l op r).headline :: before)
      ((l, depth + 2) :: (r, depth + 2) :: pending)
  | (e, depth) :: pending => listPending (indented depth e.headline :: before) pending
termination_by pending => pendingSize pending
decreasing_by
  · simp only [pendingSize, size]; omega
  · have := e.size_pos
    simp only [pendingSize]; omega

/-- The lines of an expression. -/
def listing (e : Expr) (depth : Int) : List String := listPending [] [(e, depth)]

end Expr

/-- The lines of a statement. -/
def Stmt.listing (s : Stmt) (depth : Int) : List String :=
  match s with
  | assign span ident value =>
    indented depth s!"Assign {ident} {span.listed}" :: value.listing (depth + 2)
  | print span value => indented depth s!"Print {span.listed}" :: value.listing (depth + 2)
  | pass span => [indented depth s!"Pass {span.listed}"]
  | misplaced kind _ => [indented depth s!"<unsupported statement: {kind.label}>"]

/-- The lines of a block. -/
def Block.listing (b : Block) (depth : Int) : List String :=
  indented depth s!"Block {b.span.listed}" ::
    b.statements.flatMap fun s => s.listing (depth + 2)

/-- The lines of a program. -/
def Program.listing (p : Program) : List String :=
  s!"Program {p.span.listed}" :: p.main.listing 2

/-- The text of the listing of a program; every line ends in a line feed. -/
def Program.render (p : Program) : String := "\n".intercalate p.listing ++ "\n"

/-- The lines of a node. -/
def Node.listing : Node → List String
  | expr e => e.listing 0
  | stmt s => s.listing 0
  | block b => b.listing 0
  | program p => p.listing

end Reckon
