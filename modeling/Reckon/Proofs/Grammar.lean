import Reckon.Tree.Parser

/-!
# The grammar

What programs look like, as rules that say nothing of how programs are read. Expressions have four
levels, each with the operators that stand at it:

    sum     = sum (+ | -) product | product
    product = product (* | // | %) power | power
    power   = primary ** power | primary
    primary = ( sum ) | number | name | input ( string )

Above them,

    simple     = pass | print ( sum )
    assignment = name = sum | name += sum
    line       = simple* assignment?
    lines      = line (newline line)*

where the name in an assignment is neither `pass` nor `print`. A rule relates tokens to the tree
that they stand for, and to the depth at which expressions are nested within each other as they are
written: parentheses leave no trace in the tree and still count.

* `Phrase`, `Simple`, `Assignment`, `Line` and `Lines` are the rules.
* `Level.binding` ties the levels to the binding powers of the operators; `Phrase.operation` is the
  one rule behind the three for operators, in terms of these powers.
-/

namespace Reckon

/-- The token stands for the operator `o`. -/
def Token.IsOperator (t : Token) (o : Operator) : Prop := t.kind = .op ∧ t.value = some (.op o)

namespace Grammar

/-! ## Expressions -/

/-- The levels of expressions. -/
inductive Level
  | sum
  | product
  | power
  | primary
deriving DecidableEq, Repr

/-- The tokens `ts` are an expression of a level, nested `depth` deep, and `e` is its tree. -/
inductive Phrase : (level : Level) → (depth : Nat) → (ts : List Token) → (e : Expr) → Prop
  /-- `sum (+ | -) product` -/
  | sum {d d' : Nat} {ts us : List Token} {t : Token} {o : Operator} {l r : Expr}
      (left : Phrase .sum d ts l) (ht : t.IsOperator o) (ho : o = .plus ∨ o = .minus)
      (right : Phrase .product d' us r) :
      Phrase .sum (max d (d' + 1)) (ts ++ t :: us) (l.join o r)
  /-- A product is a sum. -/
  | ofProduct {d : Nat} {ts : List Token} {e : Expr} (h : Phrase .product d ts e) :
      Phrase .sum d ts e
  /-- `product (* | // | %) power` -/
  | product {d d' : Nat} {ts us : List Token} {t : Token} {o : Operator} {l r : Expr}
      (left : Phrase .product d ts l) (ht : t.IsOperator o)
      (ho : o = .times ∨ o = .div ∨ o = .mod) (right : Phrase .power d' us r) :
      Phrase .product (max d (d' + 1)) (ts ++ t :: us) (l.join o r)
  /-- A power is a product. -/
  | ofPower {d : Nat} {ts : List Token} {e : Expr} (h : Phrase .power d ts e) :
      Phrase .product d ts e
  /-- `primary ** power` -/
  | power {d d' : Nat} {ts us : List Token} {t : Token} {l r : Expr}
      (left : Phrase .primary d ts l) (ht : t.IsOperator .pow) (right : Phrase .power d' us r) :
      Phrase .power (max d (d' + 1)) (ts ++ t :: us) (l.join .pow r)
  /-- A primary is a power. -/
  | ofPrimary {d : Nat} {ts : List Token} {e : Expr} (h : Phrase .primary d ts e) :
      Phrase .power d ts e
  /-- `( sum )` -/
  | parens {d : Nat} {ts : List Token} {t u : Token} {e : Expr} (ht : t.kind = .lparen)
      (h : Phrase .sum d ts e) (hu : u.kind = .rparen) :
      Phrase .primary (d + 1) (t :: (ts ++ [u])) e
  /-- A number. -/
  | number {t : Token} {n : Int} (ht : t.kind = .number) (hn : t.value = some (.int n)) :
      Phrase .primary 1 [t] (.number t.span n)
  /-- A name, be it one of the words that begin statements or the word `input`. -/
  | name {t : Token} (ht : t.kind = .ident) : Phrase .primary 1 [t] (.name t.span t.lexeme)
  /-- `input ( string )` -/
  | input {t a s u : Token} (ht : t.isWord "input") (ha : a.kind = .lparen)
      (hs : s.kind = .string) (hu : u.kind = .rparen) :
      Phrase .primary 1 [t, a, s, u] (.input (t.span.join u.span) s.lexeme)

/-! ## Statements and programs -/

/-- The tokens `ts` are a statement that another one may follow on its line. -/
inductive Simple : (depth : Nat) → (ts : List Token) → (s : Stmt) → Prop
  /-- `pass` -/
  | pass {t : Token} (ht : t.isWord "pass") : Simple 0 [t] (.pass t.span)
  /-- `print ( sum )` -/
  | print {d : Nat} {ts : List Token} {t a u : Token} {e : Expr} (ht : t.isWord "print")
      (ha : a.kind = .lparen) (h : Phrase .sum d ts e) (hu : u.kind = .rparen) :
      Simple d (t :: a :: (ts ++ [u])) (.print (t.span.join u.span) e)

/-- The tokens `ts` are an assignment. -/
inductive Assignment : (depth : Nat) → (ts : List Token) → (s : Stmt) → Prop
  /-- `name = sum` -/
  | assign {d : Nat} {ts : List Token} {t u : Token} {e : Expr} (ht : t.kind = .ident)
      (hpass : t.lexeme ≠ "pass") (hprint : t.lexeme ≠ "print") (hu : u.IsOperator .assign)
      (h : Phrase .sum d ts e) :
      Assignment d (t :: u :: ts) (.assign (t.span.join e.span) t.lexeme e)
  /-- `name += sum`, which adds to the value that the name has. -/
  | addAssign {d : Nat} {ts : List Token} {t u : Token} {e : Expr} (ht : t.kind = .ident)
      (hpass : t.lexeme ≠ "pass") (hprint : t.lexeme ≠ "print") (hu : u.IsOperator .addAssign)
      (h : Phrase .sum d ts e) :
      Assignment d (t :: u :: ts)
        (.assign (t.span.join (Expr.join (.name u.span t.lexeme) .plus e).span) t.lexeme
          (Expr.join (.name u.span t.lexeme) .plus e))

/-- The tokens `ts` are a line. Only its last statement may be an assignment. -/
inductive Line : (depth : Nat) → (ts : List Token) → (ss : List Stmt) → Prop
  | empty : Line 0 [] []
  | simple {d d' : Nat} {ts us : List Token} {s : Stmt} {ss : List Stmt} (h : Simple d ts s)
      (hs : Line d' us ss) : Line (max d d') (ts ++ us) (s :: ss)
  | assignment {d : Nat} {ts : List Token} {s : Stmt} (h : Assignment d ts s) : Line d ts [s]

/-- The tokens `ts` are a program. -/
inductive Lines : (depth : Nat) → (ts : List Token) → (ss : List Stmt) → Prop
  | last {d : Nat} {ts : List Token} {ss : List Stmt} (h : Line d ts ss) : Lines d ts ss
  | cons {d d' : Nat} {ts us : List Token} {t : Token} {ss ss' : List Stmt} (h : Line d ts ss)
      (ht : t.kind = .newline) (hs : Lines d' us ss') :
      Lines (max d d') (ts ++ t :: us) (ss ++ ss')

/-! ## Levels and binding powers -/

/-- The binding powers of the operators of a level. No operator holds as strongly as the parts of a
primary hold together. -/
def Level.binding : Level → Binding
  | sum => ⟨1, 2⟩
  | product => ⟨3, 4⟩
  | power => ⟨6, 5⟩
  | primary => ⟨7, 7⟩

/-- Every operator of arithmetic has the binding powers of its level. -/
theorem exists_level {o : Operator} {b : Binding} (h : o.binding? = some b) :
    ∃ level : Level, level.binding = b ∧ level ≠ .primary := by
  cases o <;> cases h
  · exact ⟨.sum, rfl, by decide⟩
  · exact ⟨.sum, rfl, by decide⟩
  · exact ⟨.product, rfl, by decide⟩
  · exact ⟨.product, rfl, by decide⟩
  · exact ⟨.product, rfl, by decide⟩
  · exact ⟨.power, rfl, by decide⟩

namespace Phrase

variable {level k k' : Level} {d d' : Nat} {ts us : List Token} {t : Token} {o : Operator}
  {e l r : Expr}

/-- An expression is also one of every looser level. -/
theorem lift (h : Phrase k d ts e) (hk : level.binding.left ≤ k.binding.left) :
    Phrase level d ts e := by
  cases level with
  | sum =>
    cases k with
    | sum => exact h
    | product => exact .ofProduct h
    | power => exact .ofProduct (.ofPower h)
    | primary => exact .ofProduct (.ofPower (.ofPrimary h))
  | product =>
    cases k with
    | sum => exact absurd hk (by decide)
    | product => exact h
    | power => exact .ofPower h
    | primary => exact .ofPower (.ofPrimary h)
  | power =>
    cases k with
    | sum | product => exact absurd hk (by decide)
    | power => exact h
    | primary => exact .ofPrimary h
  | primary =>
    cases k with
    | sum | product | power => exact absurd hk (by decide)
    | primary => exact h

/-- An operator joins a left operand that holds together more strongly than it, or as strongly if
it groups to the left, and a right operand of the kind that its hold on the right asks for. -/
theorem operation (left : Phrase k d ts l) (ht : t.IsOperator o)
    (ho : o.binding? = some level.binding) (right : Phrase k' d' us r)
    (hk : level.binding.left < k.binding.right) (hk' : level.binding.right ≤ k'.binding.left) :
    Phrase level (max d (d' + 1)) (ts ++ t :: us) (l.join o r) := by
  cases level with
  | sum =>
    have ho' : o = .plus ∨ o = .minus := by revert ho; cases o <;> decide
    have hl : Phrase .sum d ts l := left.lift (by revert hk; cases k <;> decide)
    exact .sum hl ht ho' (right.lift (by revert hk'; cases k' <;> decide))
  | product =>
    have ho' : o = .times ∨ o = .div ∨ o = .mod := by revert ho; cases o <;> decide
    have hl : Phrase .product d ts l := left.lift (by revert hk; cases k <;> decide)
    exact .product hl ht ho' (right.lift (by revert hk'; cases k' <;> decide))
  | power =>
    have ho' : o = .pow := by revert ho; cases o <;> decide
    subst ho'
    have hl : Phrase .primary d ts l := left.lift (by revert hk; cases k <;> decide)
    exact .power hl ht (right.lift (by revert hk'; cases k' <;> decide))
  | primary => exact absurd ho (by cases o <;> decide)

/-- An expression counts itself among those that are open. -/
theorem depth_pos (h : Phrase level d ts e) : 0 < d := by
  induction h with
  | sum | product | power => omega
  | ofProduct _ ih | ofPower _ ih | ofPrimary _ ih => exact ih
  | parens | number | name | input => omega

/-- An expression is no deeper than it is long. -/
theorem depth_le_length (h : Phrase level d ts e) : d ≤ ts.length := by
  induction h with
  | sum | product | power =>
    rw [List.length_append, List.length_cons]
    omega
  | ofProduct _ ih | ofPower _ ih | ofPrimary _ ih => exact ih
  | parens =>
    rw [List.length_cons, List.length_append, List.length_singleton]
    omega
  | number | name => exact Nat.le_refl 1
  | input => exact Nat.le_add_left 1 3

/-- No newline stands in an expression, not even within parentheses. -/
theorem kind_ne_newline (h : Phrase level d ts e) : ∀ t ∈ ts, t.kind ≠ .newline := by
  induction h with
  | sum _ ht _ _ ihl ihr | product _ ht _ _ ihl ihr | power _ ht _ ihl ihr =>
    have hop := ht.1
    grind
  | ofProduct _ ih | ofPower _ ih | ofPrimary _ ih => exact ih
  | parens | number | name => grind
  | input ht => grind [Token.isWord]

end Phrase

/-! ## Facts about statements -/

variable {d d' : Nat} {ts us : List Token} {s : Stmt} {ss : List Stmt}

theorem Simple.ne_nil (h : Simple d ts s) : ts ≠ [] := by
  cases h <;> simp

theorem Assignment.ne_nil (h : Assignment d ts s) : ts ≠ [] := by
  cases h <;> simp

theorem Simple.kind_ne_newline (h : Simple d ts s) : ∀ t ∈ ts, t.kind ≠ .newline := by
  cases h with
  | pass ht => grind [Token.isWord]
  | print ht ha h hu =>
    have := h.kind_ne_newline
    grind [Token.isWord]

theorem Assignment.kind_ne_newline (h : Assignment d ts s) : ∀ t ∈ ts, t.kind ≠ .newline := by
  cases h with
  | assign ht _ _ hu h | addAssign ht _ _ hu h =>
    have hop := hu.1
    have := h.kind_ne_newline
    grind

/-- A line holds no newline. -/
theorem Line.kind_ne_newline (h : Line d ts ss) : ∀ t ∈ ts, t.kind ≠ .newline := by
  induction h with
  | empty => simp
  | simple h _ ih =>
    intro t ht
    rcases List.mem_append.1 ht with ht | ht
    · exact h.kind_ne_newline t ht
    · exact ih t ht
  | assignment h => exact h.kind_ne_newline

/-- A simple statement is a line of its own. -/
theorem Line.ofSimple (h : Simple d ts s) : Line d ts [s] := by
  have hline := Line.simple h .empty
  rwa [List.append_nil, Nat.max_zero] at hline

/-- A program may begin with one more simple statement on its first line. -/
theorem Lines.simple (h : Simple d ts s) (hs : Lines d' us ss) :
    Lines (max d d') (ts ++ us) (s :: ss) := by
  cases hs with
  | last hs => exact .last (.simple h hs)
  | cons hl ht hs =>
    rw [← List.append_assoc, ← Nat.max_assoc]
    exact .cons (.simple h hl) ht hs

/-- A program may begin with one more empty line. -/
theorem Lines.newline {t : Token} (ht : t.kind = .newline) (hs : Lines d ts ss) :
    Lines d (t :: ts) ss := by
  have h := Lines.cons .empty ht hs
  rwa [Nat.zero_max] at h

/-- A program may end in one more empty line. -/
theorem Lines.append_newline {t : Token} (ht : t.kind = .newline) (hs : Lines d ts ss) :
    Lines d (ts ++ [t]) ss := by
  induction hs with
  | last h =>
    have hlines := Lines.cons h ht (.last .empty)
    rwa [Nat.max_zero, List.append_nil] at hlines
  | cons h hu _ ih =>
    rw [List.append_assoc]
    exact .cons h hu ih

/-- A program may be closed by a newline, and need not be. -/
theorem Lines.append_end (hs : Lines d ts ss)
    (hus : us = [] ∨ ∃ t : Token, t.kind = .newline ∧ us = [t]) : Lines d (ts ++ us) ss := by
  rcases hus with rfl | ⟨t, ht, rfl⟩
  · rwa [List.append_nil]
  · exact hs.append_newline ht

end Grammar

end Reckon
