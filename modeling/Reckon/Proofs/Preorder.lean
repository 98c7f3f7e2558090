import Reckon.Proofs.Listing
import Reckon.Proofs.Writing

/-!
# The order of a listing

The listing of an expression is made with a stack of pending operands, each with a depth of its own.
It has one line for every node, operators before their operands and left operands before right ones,
and a line begins where the place of its node in the tree says.

* A node has its place in the tree, which is the way down to it from the topmost node. `Expr.at?`
  looks a place up, and `Precedes` puts places in order; neither lists anything.
* `Expr.nodes` goes through the tree by recursion. `Expr.mem_nodes_iff` and `Expr.nodes_inOrder` say
  that it finds all nodes, and each in its turn.
* `Expr.lines_eq_map_nodes` makes the lines of the nodes. That the stack gives the same lines is
  known from `Expr.listing_eq`.
-/

namespace Reckon

/-! ## Places in a tree -/

/-- The node that is reached from the topmost one by going down to one operand after the other, if
there is one. -/
def Expr.at? : Expr → (way : List Side) → Option Expr
  | e, [] => some e
  | binary _ l _ _, .left :: way => l.at? way
  | binary _ _ _ r, .right :: way => r.at? way
  | _, _ :: _ => none

/-- Nodes come before those below them, and what is below a left operand comes before what is below
the right one. -/
inductive Precedes : List Side → List Side → Prop
  | above (side : Side) (way : List Side) : Precedes [] (side :: way)
  | beside (way way' : List Side) : Precedes (.left :: way) (.right :: way')
  | under (side : Side) {way way' : List Side} (h : Precedes way way') :
      Precedes (side :: way) (side :: way')

namespace Expr

/-! ## All nodes -/

/-- The nodes of an expression with the ways to them, each before those below it. -/
def nodes : Expr → List (List Side × Expr)
  | e@(binary _ l _ r) =>
    ([], e) :: (l.nodes.map (Prod.map (.left :: ·) id) ++ r.nodes.map (Prod.map (.right :: ·) id))
  | e => [([], e)]

/-- The nodes on one side are those to which the way begins on that side. -/
theorem mem_map_side {ns : List (List Side × Expr)} {side : Side} {way : List Side} {node : Expr} :
    (way, node) ∈ ns.map (Prod.map (side :: ·) id) ↔
      ∃ rest, way = side :: rest ∧ (rest, node) ∈ ns := by
  rw [List.mem_map]
  constructor
  · rintro ⟨⟨rest, node'⟩, hmem, heq⟩
    obtain ⟨rfl, rfl⟩ := Prod.mk.inj heq
    exact ⟨rest, rfl, hmem⟩
  · rintro ⟨rest, rfl, hmem⟩
    exact ⟨(rest, node), hmem, rfl⟩

/-- **All nodes are found** where they are, and nothing else is. -/
theorem mem_nodes_iff {e node : Expr} {way : List Side} :
    (way, node) ∈ e.nodes ↔ e.at? way = some node := by
  induction e generalizing way with
  | binary s l o r ihl ihr =>
    rw [nodes, List.mem_cons, List.mem_append, mem_map_side, mem_map_side]
    rcases way with _ | ⟨_ | _, way⟩
    · simp [at?, eq_comm]
    · simp [at?, ihl]
    · simp [at?, ihr]
  | name | number | input | misplaced =>
    rw [nodes, List.mem_singleton]
    · cases way with
      | nil => simp [at?, eq_comm]
      | cons side way => simp [at?]
    · intro _ _ _ _ hbinary
      cases hbinary

/-- **Nodes are found in their order.** -/
theorem nodes_inOrder (e : Expr) : e.nodes.Pairwise fun n n' => Precedes n.1 n'.1 := by
  induction e with
  | binary s l o r ihl ihr =>
    have hside {ns : List (List Side × Expr)} (side : Side)
        (h : ns.Pairwise fun n n' => Precedes n.1 n'.1) :
        (ns.map (Prod.map (side :: ·) id)).Pairwise fun n n' => Precedes n.1 n'.1 :=
      List.pairwise_map.2 (h.imp fun hn => .under side hn)
    rw [nodes, List.pairwise_cons, List.pairwise_append]
    refine ⟨?_, hside .left ihl, hside .right ihr, ?_⟩
    · -- on either side there is a way to go
      rintro ⟨way, node⟩ hmem
      rcases List.mem_append.1 hmem with hmem | hmem
      · obtain ⟨rest, rfl, -⟩ := mem_map_side.1 hmem
        exact .above .left rest
      · obtain ⟨rest, rfl, -⟩ := mem_map_side.1 hmem
        exact .above .right rest
    · rintro ⟨way, node⟩ hleft ⟨way', node'⟩ hright
      obtain ⟨rest, rfl, -⟩ := mem_map_side.1 hleft
      obtain ⟨rest', rfl, -⟩ := mem_map_side.1 hright
      exact .beside rest rest'
  | name | number | input | misplaced => exact List.pairwise_singleton _ _

theorem length_nodes (e : Expr) : e.nodes.length = e.size := by
  induction e with
  | binary s l o r ihl ihr =>
    simp only [nodes, size, List.length_cons, List.length_append, List.length_map, ihl, ihr]
  | name | number | input | misplaced => rfl

/-! ## Their lines -/

/-- The line of a node, which begins two columns further in for every step of the way to it. -/
def lineAt (depth : Int) (n : List Side × Expr) : String :=
  indented (depth + 2 * n.1.length) n.2.headline

theorem lineAt_nil (depth : Int) (e : Expr) : lineAt depth ([], e) = indented depth e.headline := by
  simp [lineAt]

theorem lineAt_cons (depth : Int) (side : Side) (n : List Side × Expr) :
    lineAt depth (Prod.map (side :: ·) id n) = lineAt (depth + 2) n := by
  have hdepth : depth + 2 * ((n.1.length + 1 : Nat) : Int) = depth + 2 + 2 * n.1.length := by omega
  exact congrArg (fun k => indented k n.2.headline) hdepth

theorem lines_eq_map_nodes (e : Expr) (depth : Int) :
    e.lines depth = e.nodes.map (lineAt depth) := by
  induction e generalizing depth with
  | binary s l o r ihl ihr =>
    rw [lines, nodes, List.map_cons, List.map_append, List.map_map, List.map_map, lineAt_nil, ihl,
      ihr]
    simp only [Function.comp_def, lineAt_cons]
  | name | number | input | misplaced => exact congrArg ([·]) (lineAt_nil depth _).symm

/-- **A listing made with a stack is the listing by recursion**: the line of the topmost node, then
the lines of the left operand and then those of the right one, both two columns further in. So there
are as many lines as nodes. Each node has its line, in the order of the nodes, and the line begins two
columns further in for every step of the way down to the node. -/
theorem listing_isPreorder (e : Expr) (depth : Int) :
    e.listing depth = e.lines depth ∧
    (e.listing depth).length = e.size ∧
    ∃ nodes : List (List Side × Expr),
      (∀ way node, (way, node) ∈ nodes ↔ e.at? way = some node) ∧
      (nodes.Pairwise fun n n' => Precedes n.1 n'.1) ∧
      e.listing depth = nodes.map fun n => indented (depth + 2 * n.1.length) n.2.headline := by
  have hlines : e.listing depth = e.nodes.map (lineAt depth) :=
    (e.listing_eq depth).trans (e.lines_eq_map_nodes depth)
  refine ⟨e.listing_eq depth, ?_, e.nodes, fun _ _ => mem_nodes_iff, e.nodes_inOrder, hlines⟩
  rw [hlines, List.length_map, length_nodes]

end Expr

end Reckon
