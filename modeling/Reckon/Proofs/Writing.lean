import Reckon.Proofs.Acceptance
import Reckon.Proofs.Words

/-!
# Writing programs

How trees are written as text, and that reading brings them back.

An operand is put in parentheses where it would not hold together otherwise: where its operator has
the lower precedence, or the same one and stands on the side to which operators do not group. More
parentheses may be put around any part of an expression. Statements go on lines of their own, and
between two words of a line there are blanks.

* `Expr.Written`, `Stmt.Written` and `Stmts.Written` say in which words a tree may be written,
  and `Stmts.IsWrittenAs` in which texts.
* `Expr.Written.phrase` finds the tree again: parentheses where they are needed are just what makes
  the words a phrase of the right level, whatever else stands in parentheses.
-/

namespace Reckon

open Grammar

/-! ## Trees without places -/

/-- The expression with all its places forgotten. -/
def Expr.bare : Expr → Expr
  | name _ ident => .name default ident
  | number _ value => .number default value
  | input _ prompt => .input default prompt
  | binary _ left op right => .binary default left.bare op right.bare
  | misplaced kind _ => .misplaced kind default

/-- The statement with all its places forgotten. -/
def Stmt.bare : Stmt → Stmt
  | assign _ ident value => .assign default ident value.bare
  | print _ value => .print default value.bare
  | pass _ => .pass default
  | misplaced kind _ => .misplaced kind default

@[simp] theorem Expr.bare_join (l r : Expr) (o : Operator) :
    (l.join o r).bare = .binary default l.bare o r.bare := rfl

/-! ## What can be written -/

/-- Whether there is a text for the expression: its names are names, its literals are small enough,
its prompts fit on a line, and its operators are those of arithmetic. -/
def Expr.isWritable : Expr → Bool
  | name _ ident => isName ident
  | number _ value => decide (0 ≤ value ∧ value ≤ maxLiteral)
  | input _ prompt => isQuotable prompt
  | binary _ left op right => op.isArithmetic && left.isWritable && right.isWritable
  | misplaced .. => false

/-- Whether there is a text for the statement. A word that begins statements cannot be assigned
to. -/
def Stmt.isWritable : Stmt → Bool
  | assign _ ident value =>
    isName ident && decide (ident ≠ "pass") && decide (ident ≠ "print") && value.isWritable
  | print _ value => value.isWritable
  | pass _ => true
  | misplaced .. => false

/-! ## Parentheses -/

/-- Operators of a higher precedence are applied first. -/
def Operator.precedence : Operator → Nat
  | plus | minus => 1
  | times | div | mod => 2
  | pow => 3
  | assign | addAssign => 0

/-- Among operators of the same precedence, whether those to the right are applied first. -/
def Operator.groupsRight : Operator → Bool
  | pow => true
  | _ => false

/-- A side of an operator. -/
inductive Side
  | left
  | right
deriving DecidableEq, Repr

/-- The side on which an operator of the same precedence needs no parentheses. -/
def Operator.groupingSide (o : Operator) : Side := if o.groupsRight then .right else .left

/-- Whether the operand of `o` on the given side must stand in parentheses. -/
def Expr.needsParens (o : Operator) (side : Side) : Expr → Bool
  | binary _ _ o' _ =>
    o'.precedence < o.precedence || (o'.precedence = o.precedence && side ≠ o.groupingSide)
  | _ => false

/-- The expression may be written in the words `ws`, as expressions nested `depth` deep. The mark
`enclosed` tells whether the words are enclosed in parentheses. -/
inductive Expr.Written : (enclosed : Bool) → (depth : Nat) → (e : Expr) → (ws : List Word) → Prop
  | name {span : Span} {ident : String} : Written false 1 (.name span ident) [.ident ident]
  /-- A literal may be written in any digits that denote it. -/
  | number {span : Span} {value : Int} {digits : String} (hne : digits ≠ "")
      (hdigits : digits.toList.all Lexer.isDigit)
      (hvalue : (Nat.ofDigitChars 10 digits.toList 0 : Int) = value) :
      Written false 1 (.number span value) [.number digits]
  | input {span : Span} {prompt : String} :
      Written false 1 (.input span prompt) [.ident "input", .lparen, .string prompt, .rparen]
  | binary {span : Span} {left right : Expr} {o : Operator} {p q : Bool} {d d' : Nat}
      {ws us : List Word} (hleft : Written p d left ws) (hright : Written q d' right us)
      (hp : left.needsParens o .left → p) (hq : right.needsParens o .right → q) :
      Written false (max d (d' + 1)) (.binary span left o right) (ws ++ .op o :: us)
  | parens {e : Expr} {p : Bool} {d : Nat} {ws : List Word} (h : Written p d e ws) :
      Written true (d + 1) e (.lparen :: (ws ++ [.rparen]))

/-- The statement may be written in the words `ws`. -/
inductive Stmt.Written : (depth : Nat) → (s : Stmt) → (ws : List Word) → Prop
  | assign {span : Span} {ident : String} {value : Expr} {p : Bool} {d : Nat} {ws : List Word}
      (h : value.Written p d ws) :
      Written d (.assign span ident value) (.ident ident :: .op .assign :: ws)
  | print {span : Span} {value : Expr} {p : Bool} {d : Nat} {ws : List Word}
      (h : value.Written p d ws) :
      Written d (.print span value) (.ident "print" :: .lparen :: (ws ++ [.rparen]))
  | pass {span : Span} : Written 0 (.pass span) [.ident "pass"]

/-- The statements may be written in the words `ws`, one on each line. The last line need not end in
a newline. -/
inductive Stmts.Written : (depth : Nat) → (ss : List Stmt) → (ws : List Word) → Prop
  | nil : Written 0 [] []
  | last {s : Stmt} {d : Nat} {ws : List Word} (h : s.Written d ws) : Written d [s] ws
  | cons {s : Stmt} {ss : List Stmt} {d d' : Nat} {ws us : List Word} (h : s.Written d ws)
      (hs : Written d' ss us) : Written (max d d') (s :: ss) (ws ++ .newline :: us)

/-- The statements may be written as the text, as expressions nested at most `depth` deep: in words
that make them up, with blanks between the words of a line, and anywhere else if one likes. -/
def Stmts.IsWrittenAs (depth : Nat) (ss : List Stmt) (text : String) : Prop :=
  ∃ ws, Stmts.Written depth ss ws ∧
    Layout (fun v w => v = .newline ∨ w = .newline) none ws text.toList

/-! ## Words of trees -/

section Spelled

variable {p : Bool} {d : Nat} {e : Expr} {s : Stmt} {ss : List Stmt} {ws : List Word}

theorem Expr.Written.isSpelled (h : e.Written p d ws) (he : e.isWritable) :
    ∀ w ∈ ws, w.isSpelled := by
  induction h with
  | name =>
    rw [List.forall_mem_singleton]
    exact he
  | @number span value digits hne hdigits hvalue =>
    simp only [Expr.isWritable, decide_eq_true_eq] at he
    have hmax : Nat.ofDigitChars 10 digits.toList 0 ≤ maxLiteral := by omega
    simpa [Word.isSpelled, isLiteral, hne, hmax] using hdigits
  | input =>
    simp only [List.forall_mem_cons]
    exact ⟨by decide, rfl, he, rfl, by simp⟩
  | binary _ _ _ _ ihl ihr =>
    simp only [Expr.isWritable, Bool.and_eq_true] at he
    simp only [List.forall_mem_append, List.forall_mem_cons]
    exact ⟨ihl he.1.2, rfl, ihr he.2⟩
  | parens _ ih =>
    simp only [List.forall_mem_cons, List.forall_mem_append]
    exact ⟨rfl, ih he, rfl, by simp⟩

theorem Stmt.Written.isSpelled (h : s.Written d ws) (hs : s.isWritable) :
    ∀ w ∈ ws, w.isSpelled := by
  cases h with
  | assign h =>
    simp only [Stmt.isWritable, Bool.and_eq_true] at hs
    simp only [List.forall_mem_cons]
    exact ⟨hs.1.1.1, rfl, h.isSpelled hs.2⟩
  | print h =>
    simp only [List.forall_mem_cons, List.forall_mem_append]
    exact ⟨by decide, rfl, h.isSpelled hs, rfl, by simp⟩
  | pass => decide

theorem Stmts.Written.isSpelled (h : Stmts.Written d ss ws) (hss : ∀ s ∈ ss, s.isWritable) :
    ∀ w ∈ ws, w.isSpelled := by
  induction h with
  | nil => simp
  | last h => exact h.isSpelled (hss _ (.head _))
  | cons h _ ih =>
    simp only [List.forall_mem_append, List.forall_mem_cons]
    exact ⟨h.isSpelled (hss _ (.head _)), rfl, ih fun s hs => hss s (.tail _ hs)⟩

end Spelled

/-! ## From words to phrases -/

/-- The level at which an operator stands. -/
def Operator.level : Operator → Level
  | plus | minus => .sum
  | times | div | mod => .product
  | pow => .power
  | assign | addAssign => .primary

/-- The level at which an expression stands, if it is not in parentheses. -/
def Expr.level : Expr → Level
  | binary _ _ o _ => o.level
  | _ => .primary

/-- The level of an expression that may be in parentheses. -/
def Expr.levelIf (enclosed : Bool) (e : Expr) : Level := if enclosed then .primary else e.level

theorem Operator.binding?_of_isArithmetic {o : Operator} (h : o.isArithmetic) :
    o.binding? = some o.level.binding := by
  cases o with
  | assign | addAssign => cases h
  | _ => rfl

/-- Whether an operator of the level can have an operand of the level `k` on the given side. -/
def Grammar.Level.holds (level : Level) : Side → (k : Level) → Bool
  | .left, k => level.binding.left < k.binding.right
  | .right, k => level.binding.right ≤ k.binding.left

/-- With parentheses where they are needed, an operand is one that its operator can have. -/
theorem Expr.holds_of_needsParens {e : Expr} {o : Operator} {side : Side} {p : Bool}
    (ho : o.isArithmetic) (he : e.isWritable) (hp : e.needsParens o side → p) :
    o.level.holds side (e.levelIf p) := by
  have hprimary : o.level.holds side .primary := by
    revert ho
    cases side <;> cases o <;> decide
  cases p with
  | true => exact hprimary
  | false =>
    cases e with
    | binary span l o' r =>
      simp only [Expr.isWritable, Bool.and_eq_true] at he
      have ho' := he.1.1
      simp only [Expr.needsParens] at hp
      show o.level.holds side o'.level
      -- what is left is a table with a row for every two operators and each side
      clear he hprimary
      revert ho ho' hp
      cases side <;> cases o <;> cases o' <;> decide
    | name | number | input | misplaced => exact hprimary

theorem Token.isWord_of_payload {t : Token} {name : String}
    (h : t.payload = (Word.ident name).payload) : t.isWord name := by
  obtain ⟨hkind, hlexeme, -⟩ := Token.payload_eq h
  simp [Token.isWord, hkind, hlexeme, Word.payload]

theorem Token.ident_of_payload {t : Token} {name : String}
    (h : t.payload = (Word.ident name).payload) : t.kind = .ident ∧ t.lexeme = name :=
  ⟨(Token.payload_eq h).1, (Token.payload_eq h).2.1⟩

theorem Token.isOperator_of_payload {t : Token} {o : Operator}
    (h : t.payload = (Word.op o).payload) : t.IsOperator o :=
  ⟨(Token.payload_eq h).1, (Token.payload_eq h).2.2⟩

/-- The tokens of a text in which words are set out: those of the words, and a newline if the last line
needs one to close it. -/
theorem Layout.exists_tokens {ws : List Word} {cs : List Char}
    (h : Layout (fun v w => ¬ v.Merges w) none ws cs) (hws : ∀ w ∈ ws, w.isSpelled) :
    ∃ ts us, Lexer.scan .origin false [] cs = .ok (ts ++ us) ∧
      ts.map Token.payload = ws.map Word.payload ∧
      (us = [] ∨ ∃ t : Token, t.kind = .newline ∧ us = [t]) := by
  obtain ⟨ts, hscan, hts⟩ := Lexer.scan_layout .origin false h hws
  obtain ⟨ts₁, ts₂, rfl, hts₁, hts₂⟩ := List.map_eq_append_iff.1 hts
  refine ⟨ts₁, ts₂, hscan, hts₁, ?_⟩
  split at hts₂
  · obtain ⟨t, rfl, ht⟩ := List.map_eq_singleton_iff.1 hts₂
    exact .inr ⟨t, congrArg Prod.fst ht, rfl⟩
  · exact .inl (List.map_eq_nil_iff.1 hts₂)

/-- **The words of an expression are a phrase** of its level, and the tree of the phrase is the
expression again, but for its places. -/
theorem Expr.Written.phrase {e : Expr} {p : Bool} {d : Nat} {ws : List Word}
    (h : e.Written p d ws) (he : e.isWritable) :
    ∀ ts : List Token, ts.map Token.payload = ws.map Word.payload →
      ∃ e', Phrase (e.levelIf p) d ts e' ∧ e'.bare = e.bare := by
  induction h with
  | @name span ident =>
    intro ts hts
    obtain ⟨t, rfl, ht⟩ := List.map_eq_singleton_iff.1 hts
    obtain ⟨hkind, hlexeme, -⟩ := Token.payload_eq ht
    exact ⟨_, .name hkind, by rw [hlexeme]; rfl⟩
  | @number span value digits hne hdigits hvalue =>
    intro ts hts
    obtain ⟨t, rfl, ht⟩ := List.map_eq_singleton_iff.1 hts
    obtain ⟨hkind, -, hval⟩ := Token.payload_eq ht
    exact ⟨_, .number hkind hval, by rw [← hvalue]; rfl⟩
  | @input span prompt =>
    intro ts hts
    obtain ⟨t, ts, rfl, ht, hts⟩ := List.map_eq_cons_iff.1 hts
    obtain ⟨a, ts, rfl, ha, hts⟩ := List.map_eq_cons_iff.1 hts
    obtain ⟨s, ts, rfl, hs, hts⟩ := List.map_eq_cons_iff.1 hts
    obtain ⟨u, rfl, hu⟩ := List.map_eq_singleton_iff.1 hts
    obtain ⟨hkind, hlexeme, -⟩ := Token.payload_eq hs
    exact ⟨_, .input (Token.isWord_of_payload ht) (Token.payload_eq ha).1 hkind
      (Token.payload_eq hu).1, by rw [hlexeme]; rfl⟩
  | @binary span left right o p q d d' ws us _ _ hp hq ihl ihr =>
    intro ts hts
    simp only [Expr.isWritable, Bool.and_eq_true] at he
    obtain ⟨⟨ho, hleft⟩, hright⟩ := he
    rw [List.map_append] at hts
    obtain ⟨ts₁, ts₂, rfl, hts₁, hts₂⟩ := List.map_eq_append_iff.1 hts
    obtain ⟨t, ts₃, rfl, ht, hts₃⟩ := List.map_eq_cons_iff.1 hts₂
    obtain ⟨l, hl, hlbare⟩ := ihl hleft ts₁ hts₁
    obtain ⟨r, hr, hrbare⟩ := ihr hright ts₃ hts₃
    obtain ⟨hkind, -, hval⟩ := Token.payload_eq ht
    have hleft' := of_decide_eq_true (Expr.holds_of_needsParens ho hleft hp)
    have hright' := of_decide_eq_true (Expr.holds_of_needsParens ho hright hq)
    refine ⟨l.join o r, ?_, by rw [Expr.bare_join, hlbare, hrbare]; rfl⟩
    exact hl.operation ⟨hkind, hval⟩ (Operator.binding?_of_isArithmetic ho) hr hleft' hright'
  | @parens e p d ws h ih =>
    intro ts hts
    obtain ⟨t, ts, rfl, ht, hts⟩ := List.map_eq_cons_iff.1 hts
    rw [List.map_append] at hts
    obtain ⟨ts₁, ts₂, rfl, hts₁, hts₂⟩ := List.map_eq_append_iff.1 hts
    obtain ⟨u, rfl, hu⟩ := List.map_eq_singleton_iff.1 hts₂
    obtain ⟨e', he', hbare⟩ := ih he ts₁ hts₁
    have hsum : Phrase .sum d ts₁ e' := he'.lift (by cases e.levelIf p <;> decide)
    exact ⟨e', .parens (Token.payload_eq ht).1 hsum (Token.payload_eq hu).1, hbare⟩

theorem Stmt.Written.line {s : Stmt} {d : Nat} {ws : List Word} {ts : List Token}
    (h : s.Written d ws) (hs : s.isWritable)
    (hts : ts.map Token.payload = ws.map Word.payload) :
    ∃ s', Grammar.Line d ts [s'] ∧ s'.bare = s.bare := by
  have hsum {e e' : Expr} {p : Bool} {d : Nat} {ts : List Token}
      (he : Phrase (e.levelIf p) d ts e') : Phrase .sum d ts e' :=
    he.lift (by cases e.levelIf p <;> decide)
  cases h with
  | @assign span ident value p d ws h =>
    simp only [Stmt.isWritable, Bool.and_eq_true, decide_eq_true_eq] at hs
    obtain ⟨⟨⟨-, hpass⟩, hprint⟩, hvalue⟩ := hs
    obtain ⟨t, ts, rfl, ht, hts⟩ := List.map_eq_cons_iff.1 hts
    obtain ⟨u, ts, rfl, hu, hts⟩ := List.map_eq_cons_iff.1 hts
    obtain ⟨e, he, hbare⟩ := h.phrase hvalue ts hts
    obtain ⟨hkind, hlexeme, -⟩ := Token.payload_eq ht
    obtain ⟨hop, -, hval⟩ := Token.payload_eq hu
    have hident : t.lexeme = ident := hlexeme
    rw [← hident] at hpass hprint
    refine ⟨_, .assignment (.assign hkind hpass hprint ⟨hop, hval⟩ (hsum he)), ?_⟩
    rw [Stmt.bare, Stmt.bare, hbare, hident]
  | @print span value p d ws h =>
    obtain ⟨t, ts, rfl, ht, hts⟩ := List.map_eq_cons_iff.1 hts
    obtain ⟨a, ts, rfl, ha, hts⟩ := List.map_eq_cons_iff.1 hts
    rw [List.map_append] at hts
    obtain ⟨ts₁, ts₂, rfl, hts₁, hts₂⟩ := List.map_eq_append_iff.1 hts
    obtain ⟨u, rfl, hu⟩ := List.map_eq_singleton_iff.1 hts₂
    obtain ⟨e, he, hbare⟩ := h.phrase hs ts₁ hts₁
    refine ⟨_, .ofSimple (.print (Token.isWord_of_payload ht) (Token.payload_eq ha).1 (hsum he)
      (Token.payload_eq hu).1), ?_⟩
    rw [Stmt.bare, Stmt.bare, hbare]
  | pass =>
    obtain ⟨t, rfl, ht⟩ := List.map_eq_singleton_iff.1 hts
    exact ⟨_, .ofSimple (.pass (Token.isWord_of_payload ht)), rfl⟩

/-- The words of statements are the lines of a program with these statements. -/
theorem Stmts.Written.lines {ss : List Stmt} {d : Nat} {ws : List Word}
    (h : Stmts.Written d ss ws) (hss : ∀ s ∈ ss, s.isWritable) :
    ∀ ts : List Token, ts.map Token.payload = ws.map Word.payload →
      ∃ ss', Lines d ts ss' ∧ ss'.map Stmt.bare = ss.map Stmt.bare := by
  induction h with
  | nil =>
    intro ts hts
    rw [List.map_eq_nil_iff.1 hts]
    exact ⟨[], .last .empty, rfl⟩
  | @last s d ws h =>
    intro ts hts
    obtain ⟨s', hline, hbare⟩ := h.line (hss s (.head _)) hts
    exact ⟨[s'], .last hline, by rw [List.map_singleton, List.map_singleton, hbare]⟩
  | @cons s ss d d' ws us h _ ih =>
    intro ts hts
    rw [List.map_append] at hts
    obtain ⟨ts₁, ts₂, rfl, hts₁, hts₂⟩ := List.map_eq_append_iff.1 hts
    obtain ⟨t, ts₃, rfl, ht, hts₃⟩ := List.map_eq_cons_iff.1 hts₂
    obtain ⟨s', hline, hbare⟩ := h.line (hss s (.head _)) hts₁
    obtain ⟨ss', hlines, hbares⟩ := ih (fun s hs => hss s (.tail _ hs)) ts₃ hts₃
    refine ⟨[s'] ++ ss', .cons hline (Token.payload_eq ht).1 hlines, ?_⟩
    rw [List.singleton_append, List.map_cons, List.map_cons, hbare, hbares]

/-! ## Every tree can be written -/

/-- In parentheses throughout, every expression can be written. -/
theorem Expr.exists_written {e : Expr} (he : e.isWritable) : ∃ d ws, e.Written true d ws := by
  induction e with
  | name span ident => exact ⟨_, _, .parens .name⟩
  | number span value =>
    simp only [Expr.isWritable, decide_eq_true_eq] at he
    let digits := String.ofList (Nat.toDigits 10 value.toNat)
    have htoList : digits.toList = Nat.toDigits 10 value.toNat := String.toList_ofList
    have hne : digits ≠ "" := by
      rw [ne_eq, ← String.toList_eq_nil_iff, htoList]
      exact Nat.toDigits_ne_nil
    have hdigits : digits.toList.all Lexer.isDigit := by
      rw [htoList, List.all_eq_true]
      intro c hc
      exact Nat.isDigit_of_mem_toDigits (by decide) (by decide) hc
    have hvalue : (Nat.ofDigitChars 10 digits.toList 0 : Int) = value := by
      rw [htoList, Nat.ofDigitChars_ten_toDigits, Int.toNat_of_nonneg he.1]
    exact ⟨_, _, .parens (.number hne hdigits hvalue)⟩
  | input span prompt => exact ⟨_, _, .parens .input⟩
  | binary span left o right ihl ihr =>
    simp only [Expr.isWritable, Bool.and_eq_true] at he
    obtain ⟨d, ws, hl⟩ := ihl he.1.2
    obtain ⟨d', us, hr⟩ := ihr he.2
    exact ⟨_, _, .parens (.binary hl hr (fun _ => rfl) fun _ => rfl)⟩
  | misplaced => cases he

theorem Stmt.exists_written {s : Stmt} (hs : s.isWritable) : ∃ d ws, s.Written d ws := by
  cases s with
  | assign span ident value =>
    simp only [Stmt.isWritable, Bool.and_eq_true] at hs
    obtain ⟨d, ws, h⟩ := Expr.exists_written hs.2
    exact ⟨d, _, .assign h⟩
  | print span value =>
    obtain ⟨d, ws, h⟩ := Expr.exists_written hs
    exact ⟨d, _, .print h⟩
  | pass => exact ⟨_, _, .pass⟩
  | misplaced => cases hs

theorem Stmts.exists_written {ss : List Stmt} (hss : ∀ s ∈ ss, s.isWritable) :
    ∃ d ws, Stmts.Written d ss ws := by
  induction ss with
  | nil => exact ⟨_, _, .nil⟩
  | cons s ss ih =>
    obtain ⟨d, ws, h⟩ := Stmt.exists_written (hss s (.head ss))
    obtain ⟨d', us, hs⟩ := ih fun s hs => hss s (.tail _ hs)
    exact ⟨_, _, .cons h hs⟩

/-- With blanks everywhere, all words can be set out. -/
theorem Layout.exists_layout (tight : Word → Word → Prop) (before : Option Word) (ws : List Word) :
    ∃ cs, Layout tight before ws cs := by
  induction ws generalizing before with
  | nil => exact ⟨[], .nil (by simp [Lexer.IsGap])⟩
  | cons w ws ih =>
    obtain ⟨cs, h⟩ := ih (some w)
    have hgap : Lexer.IsGap [' '] := by simp [Lexer.IsGap]
    exact ⟨_, .cons hgap (by simp) h⟩

theorem Stmts.exists_isWrittenAs {ss : List Stmt} (hss : ∀ s ∈ ss, s.isWritable) :
    ∃ d text, Stmts.IsWrittenAs d ss text := by
  obtain ⟨d, ws, h⟩ := Stmts.exists_written hss
  obtain ⟨cs, hlayout⟩ := Layout.exists_layout (fun v w => v = .newline ∨ w = .newline) none ws
  exact ⟨d, String.ofList cs, ws, h, by rwa [String.toList_ofList]⟩

/-! ## Reading what was written -/

/-- **Reading undoes writing.** Statements that can be written at all can be written as some text,
and whichever text they are written as, with any blanks and any parentheses beyond those they need,
the text is read as these statements again, their places apart, as long as it is not nested beyond
the limit. -/
theorem Program.ofSource_of_isWrittenAs (ss : List Stmt) (hss : ∀ s ∈ ss, s.isWritable) :
    (∃ d text, Stmts.IsWrittenAs d ss text) ∧
    ∀ d text, Stmts.IsWrittenAs d ss text → d ≤ nestingLimit →
      ∃ p, Program.ofSource text = .ok p ∧ p.main.statements.map Stmt.bare = ss.map Stmt.bare := by
  refine ⟨Stmts.exists_isWrittenAs hss, ?_⟩
  rintro d text ⟨ws, hws, hlayout⟩ hd
  have hlayout' : Layout (fun v w => ¬ v.Merges w) none ws text.toList := by
    refine hlayout.mono fun v w => ?_
    rintro (rfl | rfl)
    · exact id
    · cases v with
      | op o => cases o <;> exact id
      | _ => exact id
  obtain ⟨ts, hscan, hts⟩ := Lexer.scan_layout .origin false hlayout' (hws.isSpelled hss)
  obtain ⟨ts₁, ts₂, rfl, hts₁, hts₂⟩ := List.map_eq_append_iff.1 hts
  obtain ⟨ss', hlines, hbare⟩ := hws.lines hss ts₁ hts₁
  have hlines' : Lines d (ts₁ ++ ts₂) ss' := by
    split at hts₂
    · obtain ⟨t, rfl, ht⟩ := List.map_eq_singleton_iff.1 hts₂
      exact hlines.append_newline (congrArg Prod.fst ht)
    · rw [List.map_eq_nil_iff.1 hts₂, List.append_nil]
      exact hlines
  refine ⟨⟨⟨ss'⟩⟩, ?_, hbare⟩
  rw [Program.ofSource_eq_ok_iff]
  exact ⟨_, hscan, Program.ofTokens_eq_ok_iff.2 ⟨d, hlines', hd⟩⟩

/-- Powers group to the right: the parentheses on the left are needed, those around the word `pass`,
which is a name like any other here, are not. -/
theorem Program.ofSource_of_isWrittenAs_powers :
    let ss := [Stmt.assign default "x" (.binary default
      (.binary default (.number default 2) .pow (.number default 3)) .pow (.name default "pass"))]
    let text := "x = ( 2 ** 3 )\t** ( pass )"
    (∀ s ∈ ss, s.isWritable) ∧ Stmts.IsWrittenAs 3 ss text ∧
      ∃ p, Program.ofSource text = .ok p ∧
        p.main.statements.map Stmt.bare = ss.map Stmt.bare := by
  intro ss text
  have hss : ∀ s ∈ ss, s.isWritable := by decide
  have htext : text.toList = [] ++ (Word.ident "x").text ++ ([' '] ++ (Word.op .assign).text ++
      ([' '] ++ Word.lparen.text ++ ([' '] ++ (Word.number "2").text ++ ([' '] ++
      (Word.op .pow).text ++ ([' '] ++ (Word.number "3").text ++ ([' '] ++ Word.rparen.text ++
      (['\t'] ++ (Word.op .pow).text ++ ([' '] ++ Word.lparen.text ++ ([' '] ++
      (Word.ident "pass").text ++ ([' '] ++ Word.rparen.text ++ [])))))))))) := by decide
  have hgap : Lexer.IsGap [' '] := by simp [Lexer.IsGap]
  have htab : Lexer.IsGap ['\t'] := by simp [Lexer.IsGap]
  have hnil : Lexer.IsGap [] := by simp [Lexer.IsGap]
  have htwo : Expr.Written false 1 (.number default 2) [.number "2"] :=
    .number (by decide) (by decide) rfl
  have hthree : Expr.Written false 1 (.number default 3) [.number "3"] :=
    .number (by decide) (by decide) rfl
  have hwritten : Stmts.IsWrittenAs 3 ss text := by
    refine ⟨_, .last (.assign (.binary (.parens (.binary htwo hthree nofun nofun)) (.parens .name)
      (fun _ => rfl) nofun)), ?_⟩
    rw [htext]
    exact .cons hnil (by simp) (.cons hgap (by simp) (.cons hgap (by simp) (.cons hgap (by simp)
      (.cons hgap (by simp) (.cons hgap (by simp) (.cons hgap (by simp) (.cons htab (by simp)
      (.cons hgap (by simp) (.cons hgap (by simp) (.cons hgap (by simp) (.nil hnil)))))))))))
  exact ⟨hss, hwritten, (Program.ofSource_of_isWrittenAs ss hss).2 3 text hwritten (by decide)⟩

end Reckon
