import Reckon.Proofs.Grammar
import Reckon.Proofs.Places
import Reckon.Proofs.Words

/-!
# Texts further down

A text that stands some rows further down has the same tokens, trees and effects, only with all its
places so many rows further down. Each stage gets one statement of this kind:

* `Lexer.scan_down` for the tokens of a text,
* `Grammar.Lines.down` for the tree of tokens,
* `Stmts.run_down` for the effects of statements, where only the places in errors move.

Rows are integers, so a shift can be undone by the opposite one.
-/

namespace Reckon

/-! ## Shifting -/

/-- The place `n` rows further down. -/
def Loc.down (n : Int) (l : Loc) : Loc := ⟨l.row + n, l.col⟩

/-- The stretch `n` rows further down. -/
def Span.down (n : Int) (s : Span) : Span := ⟨s.start.down n, s.stop.down n⟩

/-- The token `n` rows further down. -/
def Token.down (n : Int) (t : Token) : Token := { t with span := t.span.down n }

/-- The expression `n` rows further down. -/
def Expr.down (n : Int) : Expr → Expr
  | name span ident => .name (span.down n) ident
  | number span value => .number (span.down n) value
  | input span prompt => .input (span.down n) prompt
  | binary span left op right => .binary (span.down n) (left.down n) op (right.down n)
  | misplaced kind span => .misplaced kind (span.down n)

/-- The statement `n` rows further down. -/
def Stmt.down (n : Int) : Stmt → Stmt
  | assign span ident value => .assign (span.down n) ident (value.down n)
  | print span value => .print (span.down n) (value.down n)
  | pass span => .pass (span.down n)
  | misplaced kind span => .misplaced kind (span.down n)

/-- The diagnostic with its place `n` rows further down. It is of the same kind, and says the same. -/
def Diagnostic.down (n : Int) (d : Diagnostic) : Diagnostic := { d with span := d.span.down n }

/-- The error with its place, if it has one, `n` rows further down. -/
def Error.down (n : Int) : Error → Error
  | diagnostic d => .diagnostic (d.down n)
  | fault f => .fault f

section Compose

variable (m n : Int)

@[simp] theorem Loc.down_zero (l : Loc) : l.down 0 = l := by
  rw [Loc.down, Int.add_zero]

@[simp] theorem Loc.down_down (l : Loc) : (l.down m).down n = l.down (m + n) := by
  simp only [Loc.down, Int.add_assoc]

@[simp] theorem Span.down_zero (s : Span) : s.down 0 = s := by
  rw [Span.down, Loc.down_zero, Loc.down_zero]

@[simp] theorem Span.down_down (s : Span) : (s.down m).down n = s.down (m + n) := by
  simp only [Span.down, Loc.down_down]

theorem Span.down_join (s s' : Span) : (s.join s').down n = (s.down n).join (s'.down n) := rfl

@[simp] theorem Token.down_zero (t : Token) : t.down 0 = t := by
  rw [Token.down, Span.down_zero]

@[simp] theorem Token.down_down (t : Token) : (t.down m).down n = t.down (m + n) := by
  simp only [Token.down, Span.down_down]

@[simp] theorem Expr.down_zero (e : Expr) : e.down 0 = e := by
  induction e with
  | binary _ _ _ _ ihl ihr => rw [Expr.down, Span.down_zero, ihl, ihr]
  | name | number | input | misplaced => rw [Expr.down, Span.down_zero]

@[simp] theorem Expr.down_down (e : Expr) : (e.down m).down n = e.down (m + n) := by
  induction e with
  | binary _ _ _ _ ihl ihr => simp only [Expr.down, Span.down_down, ihl, ihr]
  | name | number | input | misplaced => simp only [Expr.down, Span.down_down]

theorem Expr.span_down (e : Expr) : (e.down n).span = e.span.down n := by
  cases e <;> rfl

theorem Expr.down_join (l r : Expr) (o : Operator) :
    (l.join o r).down n = (l.down n).join o (r.down n) := by
  rw [Expr.join, Expr.join, Expr.down, Span.down_join, Expr.span_down, Expr.span_down]

@[simp] theorem Stmt.down_zero (s : Stmt) : s.down 0 = s := by
  cases s <;> simp only [Stmt.down, Span.down_zero, Expr.down_zero]

@[simp] theorem Stmt.down_down (s : Stmt) : (s.down m).down n = s.down (m + n) := by
  cases s <;> simp only [Stmt.down, Span.down_down, Expr.down_down]

@[simp] theorem Error.down_zero (e : Error) : e.down 0 = e := by
  cases e with
  | diagnostic d => rw [Error.down, Diagnostic.down, Span.down_zero]
  | fault f => rfl

@[simp] theorem Error.down_down (e : Error) : (e.down m).down n = e.down (m + n) := by
  cases e with
  | diagnostic d => simp only [Error.down, Diagnostic.down, Span.down_down]
  | fault f => rfl

end Compose

/-! ## Tokens -/

section Tokens

variable (n : Int) (l : Loc)

theorem Loc.down_next (c : Char) : (l.down n).next c = (l.next c).down n := by
  unfold Loc.next
  split
  · show (⟨l.row + n + 1, 1⟩ : Loc) = ⟨l.row + 1 + n, 1⟩
    rw [Int.add_right_comm]
  · rfl

theorem Loc.down_after (cs : List Char) : (l.down n).after cs = (l.after cs).down n := by
  induction cs generalizing l with
  | nil => rfl
  | cons c cs ih => rw [Loc.after_cons, Loc.after_cons, Loc.down_next, ih]

/-- **The tokens of a text move with it**, and so does what is wrong with it. -/
theorem Lexer.scan_down (lineOpen : Bool) (cs : List Char) :
    scan (l.down n) lineOpen [] cs =
      ((scan l lineOpen [] cs).map (List.map (Token.down n))).mapError (Diagnostic.down n) := by
  induction hlen : cs.length using Nat.strongRecOn generalizing l lineOpen cs with
  | _ len ih =>
    cases cs with
    | nil =>
      rw [scan_nil, scan_nil]
      cases lineOpen <;> rfl
    | cons c cs =>
      cases hcut : cut c cs with
      | error blame =>
        rw [scan, scan, hcut]
        rfl
      | ok found =>
        obtain ⟨piece, width⟩ := found
        have hlt : (cs.drop width).length < len := by
          rw [← hlen, List.length_drop, List.length_cons]
          omega
        have htoken : piece.token? width (l.down n) lineOpen =
            (piece.token? width l lineOpen).map (Token.down n) := by
          cases piece <;> cases lineOpen <;> rfl
        rw [scan_cons _ _ hcut, scan_cons _ _ hcut, Loc.down_after, ih _ hlt _ _ _ rfl, htoken]
        cases scan (l.after (c :: cs.take width)) (piece.leavesOpen lineOpen) [] (cs.drop width) with
        | error d => rfl
        | ok ts => cases piece.token? width l lineOpen <;> rfl

end Tokens

/-! ## Trees -/

namespace Grammar

variable {level : Level} {d : Nat} {ts : List Token} {e : Expr} {s : Stmt} {ss : List Stmt} (n : Int)

theorem Phrase.down (h : Phrase level d ts e) :
    Phrase level d (ts.map (Token.down n)) (e.down n) := by
  induction h with
  | sum _ ht ho _ ihl ihr =>
    rw [List.map_append, Expr.down_join]
    exact .sum ihl ht ho ihr
  | product _ ht ho _ ihl ihr =>
    rw [List.map_append, Expr.down_join]
    exact .product ihl ht ho ihr
  | power _ ht _ ihl ihr =>
    rw [List.map_append, Expr.down_join]
    exact .power ihl ht ihr
  | ofProduct _ ih => exact .ofProduct ih
  | ofPower _ ih => exact .ofPower ih
  | ofPrimary _ ih => exact .ofPrimary ih
  | parens ht _ hu ih =>
    rw [List.map_cons, List.map_append]
    exact .parens ht ih hu
  | number ht hn => exact .number ht hn
  | name ht => exact .name ht
  | input ht ha hs hu => exact .input ht ha hs hu

theorem Simple.down (h : Simple d ts s) : Simple d (ts.map (Token.down n)) (s.down n) := by
  cases h with
  | pass ht => exact .pass ht
  | print ht ha h hu =>
    rw [List.map_cons, List.map_cons, List.map_append]
    exact .print ht ha (h.down n) hu

theorem Assignment.down (h : Assignment d ts s) :
    Assignment d (ts.map (Token.down n)) (s.down n) := by
  cases h with
  | assign ht hpass hprint hu h =>
    rw [Stmt.down, Span.down_join, ← Expr.span_down]
    exact .assign ht hpass hprint hu (h.down n)
  | addAssign ht hpass hprint hu h =>
    rw [Stmt.down, Span.down_join, ← Expr.span_down, Expr.down_join]
    exact .addAssign ht hpass hprint hu (h.down n)

theorem Line.down (h : Line d ts ss) : Line d (ts.map (Token.down n)) (ss.map (Stmt.down n)) := by
  induction h with
  | empty => exact .empty
  | simple h _ ih =>
    rw [List.map_append]
    exact .simple (h.down n) ih
  | assignment h => exact .assignment (h.down n)

/-- **The tree of a program moves with its tokens.** -/
theorem Lines.down (h : Lines d ts ss) :
    Lines d (ts.map (Token.down n)) (ss.map (Stmt.down n)) := by
  induction h with
  | last h => exact .last (h.down n)
  | cons h ht _ ih =>
    rw [List.map_append, List.map_append]
    exact .cons (h.down n) ht ih

end Grammar

/-! ## Effects -/

section Effects

variable (n : Int)

theorem Expr.down_eq_relocate (e : Expr) : e.down n = e.relocate (Span.down n) := by
  induction e with
  | binary _ _ _ _ ihl ihr => rw [Expr.down, Expr.relocate, ihl, ihr]
  | name | number | input | misplaced => rfl

theorem Stmt.down_eq_relocate (s : Stmt) : s.down n = s.relocate (Span.down n) := by
  cases s with
  | assign | print => rw [Stmt.down, Stmt.relocate, Expr.down_eq_relocate]
  | pass | misplaced => rfl

theorem Error.down_eq_relocate (e : Error) : e.down n = e.relocate (Span.down n) := by
  cases e <;> rfl

/-- **Statements do the same further down**, but for the places in errors. -/
theorem Stmts.run_down (ss : List Stmt) :
    (ss.map (Stmt.down n)).forM Stmt.run = (ss.forM Stmt.run).adaptExcept (Error.down n) := by
  rw [funext (Stmt.down_eq_relocate n), funext (Error.down_eq_relocate n)]
  exact Stmts.run_relocate (Span.down n) ss

end Effects

end Reckon
