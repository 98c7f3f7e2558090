import Reckon.Proofs.Blame

/-!
# The limit on nested expressions

A reader may have only so many expressions open within each other. This module says what the limit
does, and to which programs.

* `Extends` is about any tokens at all, be they a program or not: with more room a reader gives the
  answer it gave before, unless it was the limit that stopped it. The limit is passed down and looked
  at in one place only, so all readers but `expression` inherit this from their parts.
* `Form` is an expression as it is written. Parentheses and right operands open an expression within the
  one that is being read; a left operand does not, since the loop over operators goes on with it. So the
  `depth` of an expression follows from how it is put together. Whether a program is stopped depends on
  the depths of its expressions and on nothing else, by `Reads.isStopped_iff`.
* `IsChain` is a sum or a product without parentheses. However long it is, at most two expressions are
  open at a time.
-/

namespace Reckon

open Grammar

/-! ## More room -/

namespace Parser

section Extends

variable {α β : Type} {p q : Parser α} {f g : α → Parser β} {n n' : Nat}

/-- Where `p` is not stopped by its limit, `q` does the same. -/
def Extends (q p : Parser α) : Prop :=
  ∀ ts, (∃ us, p.run ts = .error (.cause .nestedTooDeeply) us) ∨ q.run ts = p.run ts

theorem Extends.refl (p : Parser α) : Extends p p := fun _ => .inr rfl

theorem Extends.bind (hp : Extends q p) (hf : ∀ a, Extends (g a) (f a)) :
    Extends (q >>= g) (p >>= f) := by
  intro ts
  rcases hp ts with ⟨us, herr⟩ | heq
  · exact .inl ⟨us, run_bind_of_error herr⟩
  · cases hrun : p.run ts with
    | error r us =>
      right
      rw [run_bind_of_error hrun, run_bind_of_error (heq.trans hrun)]
    | ok a us =>
      rw [run_bind_of_ok hrun, run_bind_of_ok (heq.trans hrun)]
      exact hf a us

theorem extends_primary {inner inner' : Parser Expr} (h : Extends inner' inner) :
    Extends (primary inner') (primary inner) := by
  refine (Extends.refl current).bind fun t => ?_
  cases t.kind with
  | lparen => exact (Extends.refl skip).bind fun _ => h.bind fun e => .refl _
  | newline | comma | ident | number | string | rparen | op => exact .refl _

theorem extends_operators {operand operand' : Int → Parser Expr}
    (h : ∀ m, Extends (operand' m) (operand m)) (m : Int) (bound : List Token) (left : Expr) :
    Extends (operators operand' m bound left) (operators operand m bound left) := by
  induction bound generalizing left with
  | nil => exact .refl _
  | cons x bound ih =>
    intro ts
    cases ts with
    | nil => exact .inr rfl
    | cons t ts =>
      rcases operators_verdict m t with hstop | ⟨o, b, ht, hb, hm⟩ | ⟨r, -, hrun⟩
      · right
        rw [run_operators_of_stops (hstop ts), run_operators_of_stops (hstop ts)]
      · rw [run_operators_operator ht hb hm, run_operators_operator ht hb hm]
        exact (h b.right).bind (fun right => ih (left.join o right)) ts
      · right
        rw [hrun, hrun]

/-- **More room for expressions changes no answer** that was not due to the lack of it. -/
theorem extends_expression (h : n ≤ n') (m : Int) : Extends (expression n' m) (expression n m) := by
  induction n generalizing n' m with
  | zero => exact fun ts => .inl ⟨ts, rfl⟩
  | succ n ih =>
    obtain ⟨k, rfl⟩ : ∃ k, n' = k + 1 := ⟨n' - 1, by omega⟩
    have hk : n ≤ k := by omega
    exact (extends_primary (ih hk 0)).bind fun left => (Extends.refl get).bind fun bound =>
      extends_operators (ih hk) m bound left

theorem extends_print (h : n ≤ n') : Extends (print n') (print n) :=
  (Extends.refl current).bind fun _ => (Extends.refl skip).bind fun _ =>
    (Extends.refl (expect _)).bind fun _ => (extends_expression h 0).bind fun _ => .refl _

theorem extends_assignment (h : n ≤ n') : Extends (assignment n') (assignment n) := by
  intro ts
  cases ts with
  | nil => exact .inr rfl
  | cons t ts =>
    by_cases ht : t.kind = .ident
    · cases ts with
      | nil =>
        right
        rw [run_assignment_nil ht, run_assignment_nil ht]
      | cons u ts =>
        by_cases hassign : u.IsOperator .assign
        · rw [run_assignment_assign ht hassign, run_assignment_assign ht hassign]
          exact (extends_expression h 0).bind (fun _ => .refl _) ts
        · by_cases hadd : u.IsOperator .addAssign
          · rw [run_assignment_addAssign ht hadd, run_assignment_addAssign ht hadd]
            exact (extends_expression h 0).bind (fun _ => .refl _) ts
          · right
            rw [run_assignment_unexpected ht hassign hadd, run_assignment_unexpected ht hassign hadd]
    · right
      rw [run_assignment_not_ident ht, run_assignment_not_ident ht]

theorem extends_statement (h : n ≤ n') : Extends (statement n') (statement n) := by
  refine (Extends.refl current).bind fun t => ?_
  by_cases hpass : t.isWord "pass"
  · rw [if_pos hpass, if_pos hpass]
    exact .refl _
  rw [if_neg hpass, if_neg hpass]
  by_cases hprint : t.isWord "print"
  · rw [if_pos hprint, if_pos hprint]
    exact extends_print h
  · rw [if_neg hprint, if_neg hprint]
    exact extends_assignment h

theorem extends_statements (h : n ≤ n') (count : Nat) :
    Extends (statements n' count) (statements n count) := by
  induction count with
  | zero => exact .refl _
  | succ count ih =>
    refine (Extends.refl peek?).bind fun t => ?_
    cases t with
    | none => exact .refl _
    | some t =>
      dsimp only
      by_cases ht : t.kind = .newline
      · rw [if_pos ht, if_pos ht]
        exact (Extends.refl skip).bind fun _ => ih
      · rw [if_neg ht, if_neg ht]
        exact (extends_statement h).bind fun _ => (Extends.refl skipNewline).bind fun _ =>
          ih.bind fun _ => .refl _

theorem extends_program (h : n ≤ n') : Extends (program n') (program n) :=
  ((Extends.refl get).bind fun _ => (extends_statements h _).bind fun _ => .refl _).bind
    fun _ => .refl _

theorem extends_wholeExpression (h : n ≤ n') : Extends (wholeExpression n') (wholeExpression n) :=
  (extends_expression h 0).bind fun e => .refl (finish e)

end Extends

/-! ## Answers on a stream -/

section Stopped

variable {α : Type} {p q : Parser α} {s : TokenStream} {ts : List Token}

/-- The answer is that expressions are nested too deeply. -/
def IsStopped (r : EStateM.Result Error TokenStream α) : Prop :=
  ∃ span s, r = .error (.diagnostic ⟨.grammar .nestedTooDeeply, span⟩) s

theorem isStopped_onStream (h : ∃ us, p.run s.rest = .error (.cause .nestedTooDeeply) us) :
    IsStopped (p.onStream.run s) := by
  obtain ⟨us, herr⟩ := h
  let after : TokenStream := { s with index := s.tokens.length - us.length }
  refine ⟨after.here, after, ?_⟩
  show p.onStream s = _
  unfold onStream
  dsimp only
  rw [herr]

theorem not_isStopped_of_ok {a : α} {us : List Token} (h : p.run ts = .ok a us) :
    ¬ IsStopped (p.onStream.run (.ofTokens ts)) := by
  rintro ⟨span, s, herr⟩
  rw [onStream_of_ok h] at herr
  cases herr

/-- What more room does to the answer on a stream, wherever the stream stands. -/
theorem Extends.onStream_eq (h : Extends q p) (hp : ¬ IsStopped (p.onStream.run s)) :
    q.onStream.run s = p.onStream.run s := by
  have heq : q.run s.rest = p.run s.rest := (h s.rest).resolve_left fun hstop =>
    hp (isStopped_onStream hstop)
  show q.onStream s = p.onStream s
  unfold onStream
  dsimp only
  rw [heq]

variable {reader : Nat → Parser α} {L : Nat → List Token → Prop} {n d d' : Nat}

/-- **The limit stops what is nested beyond it**, and nothing else that the reader could read. -/
theorem Reads.isStopped_iff (hreads : Reads reader L) (h : L d ts) :
    IsStopped ((reader n).onStream.run (.ofTokens ts)) ↔ n < d := by
  obtain ⟨a, hok, hdeep⟩ := hreads.complete (n := n) h
  constructor
  · intro hstop
    exact Nat.not_le.1 fun hle => not_isStopped_of_ok (hok hle) hstop
  · exact fun hlt => isStopped_onStream (s := .ofTokens ts) (hdeep hlt)

theorem Reads.depth_unique (hreads : Reads reader L) (h : L d ts) (h' : L d' ts) : d = d' := by
  have hiff (n : Nat) : n < d ↔ n < d' := by
    rw [← hreads.isStopped_iff h, hreads.isStopped_iff h']
  have hd := hiff d
  have hd' := hiff d'
  omega

end Stopped

end Parser

/-! ## Expressions as they are written -/

namespace Grammar

/-- The tokens of an expression that has no other expressions in it, and its tree. -/
inductive IsLeaf : (ts : List Token) → (e : Expr) → Prop
  | number {t : Token} {n : Int} (ht : t.kind = .number) (hn : t.value = some (.int n)) :
      IsLeaf [t] (.number t.span n)
  | name {t : Token} (ht : t.kind = .ident) : IsLeaf [t] (.name t.span t.lexeme)
  | input {t a s u : Token} (ht : t.isWord "input") (ha : a.kind = .lparen) (hs : s.kind = .string)
      (hu : u.kind = .rparen) : IsLeaf [t, a, s, u] (.input (t.span.join u.span) s.lexeme)

theorem IsLeaf.phrase {ts : List Token} {e : Expr} (h : IsLeaf ts e) : Phrase .primary 1 ts e := by
  cases h with
  | number ht hn => exact .number ht hn
  | name ht => exact .name ht
  | input ht ha hs hu => exact .input ht ha hs hu

/-- An expression of a level as it is written, with its parentheses. -/
inductive Form : (level : Level) → Type
  /-- A number, a name or a request for input. -/
  | leaf (ts : List Token) (e : Expr) (h : IsLeaf ts e) : Form .primary
  /-- An expression in parentheses. -/
  | parens (t u : Token) (inner : Form .sum) (ht : t.kind = .lparen) (hu : u.kind = .rparen) :
      Form .primary
  /-- Two operands with an operator between them, which holds both. -/
  | operation {level k k' : Level} (left : Form k) (t : Token) (o : Operator) (right : Form k')
      (ht : t.IsOperator o) (ho : o.binding? = some level.binding)
      (hk : level.binding.left < k.binding.right) (hk' : level.binding.right ≤ k'.binding.left) :
      Form level
  /-- An expression in the place of one of a looser level. -/
  | loosen {level k : Level} (inner : Form k) (hk : level.binding.left ≤ k.binding.left) :
      Form level

namespace Form

variable {level : Level}

/-- The tokens of the expression. -/
def tokens : {level : Level} → Form level → List Token
  | _, leaf ts _ _ => ts
  | _, parens t u inner _ _ => t :: (inner.tokens ++ [u])
  | _, operation left t _ right _ _ _ _ => left.tokens ++ t :: right.tokens
  | _, loosen inner _ => inner.tokens

/-- The tree of the expression, in which parentheses leave no trace. -/
def tree : {level : Level} → Form level → Expr
  | _, leaf _ e _ => e
  | _, parens _ _ inner _ _ => inner.tree
  | _, operation left _ o right _ _ _ _ => left.tree.join o right.tree
  | _, loosen inner _ => inner.tree

/-- How deeply the expression is nested: 1 for a leaf, one more than what is inside for parentheses,
and for an operation the depth of its left operand or one more than that of its right operand. -/
def depth : {level : Level} → Form level → Nat
  | _, leaf _ _ _ => 1
  | _, parens _ _ inner _ _ => inner.depth + 1
  | _, operation left _ _ right _ _ _ _ => max left.depth (right.depth + 1)
  | _, loosen inner _ => inner.depth

/-- What is written as an expression is one in the grammar, as deep as it is written. -/
theorem phrase (f : Form level) : Phrase level f.depth f.tokens f.tree := by
  induction f with
  | leaf ts e h => exact h.phrase
  | parens t u inner ht hu ih => exact .parens ht ih hu
  | operation left t o right ht ho hk hk' ihl ihr => exact ihl.operation ht ho ihr hk hk'
  | loosen inner hk ih => exact ih.lift hk

end Form

variable {level : Level} {d d' : Nat} {t : Token} {ts us : List Token} {o : Operator} {e : Expr}
  {s : Stmt} {ss : List Stmt}

/-- Every expression can be taken apart into its parts as they are written. -/
theorem Phrase.exists_form (h : Phrase level d ts e) :
    ∃ f : Form level, f.tokens = ts ∧ f.depth = d := by
  induction h with
  | @sum d d' ts us t o l r _ ht ho _ ihl ihr =>
    obtain ⟨f, rfl, rfl⟩ := ihl
    obtain ⟨g, rfl, rfl⟩ := ihr
    have hbinding : o.binding? = some Level.sum.binding := by rcases ho with rfl | rfl <;> rfl
    exact ⟨.operation f t o g ht hbinding (by decide) (by decide), rfl, rfl⟩
  | @product d d' ts us t o l r _ ht ho _ ihl ihr =>
    obtain ⟨f, rfl, rfl⟩ := ihl
    obtain ⟨g, rfl, rfl⟩ := ihr
    have hbinding : o.binding? = some Level.product.binding := by
      rcases ho with rfl | rfl | rfl <;> rfl
    exact ⟨.operation f t o g ht hbinding (by decide) (by decide), rfl, rfl⟩
  | @power d d' ts us t l r _ ht _ ihl ihr =>
    obtain ⟨f, rfl, rfl⟩ := ihl
    obtain ⟨g, rfl, rfl⟩ := ihr
    have hbinding : Operator.pow.binding? = some Level.power.binding := rfl
    exact ⟨.operation f t .pow g ht hbinding (by decide) (by decide), rfl, rfl⟩
  | ofProduct _ ih | ofPower _ ih | ofPrimary _ ih =>
    obtain ⟨f, rfl, rfl⟩ := ih
    exact ⟨.loosen f (by decide), rfl, rfl⟩
  | parens ht _ hu ih =>
    obtain ⟨f, rfl, rfl⟩ := ih
    exact ⟨.parens _ _ f ht hu, rfl, rfl⟩
  | number ht hn => exact ⟨.leaf _ _ (.number ht hn), rfl, rfl⟩
  | name ht => exact ⟨.leaf _ _ (.name ht), rfl, rfl⟩
  | input ht ha hs hu => exact ⟨.leaf _ _ (.input ht ha hs hu), rfl, rfl⟩

/-! ## Programs as they are written -/

/-- The expressions `fs` are those of the statements on the line `ts`, from left to right. A `pass`
has none, and `x += e` has `e` alone. -/
inductive LineForms : (ts : List Token) → (fs : List (Form .sum)) → Prop
  | empty : LineForms [] []
  | pass {t : Token} {us : List Token} {fs : List (Form .sum)} (ht : t.isWord "pass")
      (hs : LineForms us fs) : LineForms (t :: us) fs
  | print {t a u : Token} {us : List Token} {fs : List (Form .sum)} (f : Form .sum)
      (ht : t.isWord "print") (ha : a.kind = .lparen) (hu : u.kind = .rparen)
      (hs : LineForms us fs) : LineForms (t :: a :: (f.tokens ++ u :: us)) (f :: fs)
  | assignment {t u : Token} (f : Form .sum) (ht : t.kind = .ident) (hpass : t.lexeme ≠ "pass")
      (hprint : t.lexeme ≠ "print") (hu : u.IsOperator .assign ∨ u.IsOperator .addAssign) :
      LineForms (t :: u :: f.tokens) [f]

/-- The expressions `fs` are those of the statements of the program `ts`, in their order. -/
inductive ProgramForms : (ts : List Token) → (fs : List (Form .sum)) → Prop
  | last {ts : List Token} {fs : List (Form .sum)} (h : LineForms ts fs) : ProgramForms ts fs
  | cons {ts us : List Token} {t : Token} {fs fs' : List (Form .sum)} (h : LineForms ts fs)
      (ht : t.kind = .newline) (hs : ProgramForms us fs') : ProgramForms (ts ++ t :: us) (fs ++ fs')

/-- The greatest depth of expressions. -/
def deepest (fs : List (Form .sum)) : Nat := fs.foldr (fun f d => max f.depth d) 0

variable {fs fs' : List (Form .sum)}

@[simp] theorem deepest_cons (f : Form .sum) : deepest (f :: fs) = max f.depth (deepest fs) := rfl

theorem deepest_append : deepest (fs ++ fs') = max (deepest fs) (deepest fs') := by
  induction fs with
  | nil => exact (Nat.zero_max _).symm
  | cons f fs ih => rw [List.cons_append, deepest_cons, deepest_cons, ih, Nat.max_assoc]

theorem lt_deepest_iff {n : Nat} : n < deepest fs ↔ ∃ f ∈ fs, n < f.depth := by
  induction fs with
  | nil => simp [deepest]
  | cons f fs ih =>
    simp only [deepest_cons, List.mem_cons, exists_eq_or_imp, ← ih]
    omega

theorem LineForms.line (h : LineForms ts fs) : ∃ ss, Line (deepest fs) ts ss := by
  induction h with
  | empty => exact ⟨[], .empty⟩
  | pass ht _ ih =>
    obtain ⟨ss, hline⟩ := ih
    have hpass := Line.simple (.pass ht) hline
    rw [Nat.zero_max] at hpass
    exact ⟨_, hpass⟩
  | print f ht ha hu _ ih =>
    obtain ⟨ss, hline⟩ := ih
    have hprint := Line.simple (.print ht ha f.phrase hu) hline
    simp only [List.cons_append, List.append_assoc, List.nil_append] at hprint
    exact ⟨_, hprint⟩
  | assignment f ht hpass hprint hu =>
    rw [show deepest [f] = f.depth from Nat.max_zero _]
    rcases hu with hu | hu
    · exact ⟨_, .assignment (.assign ht hpass hprint hu f.phrase)⟩
    · exact ⟨_, .assignment (.addAssign ht hpass hprint hu f.phrase)⟩

theorem Line.exists_forms (h : Line d ts ss) : ∃ fs, LineForms ts fs := by
  induction h with
  | empty => exact ⟨[], .empty⟩
  | simple h _ ih =>
    obtain ⟨fs, hfs⟩ := ih
    cases h with
    | pass ht => exact ⟨fs, .pass ht hfs⟩
    | print ht ha h hu =>
      obtain ⟨f, rfl, -⟩ := h.exists_form
      simp only [List.cons_append, List.append_assoc, List.nil_append]
      exact ⟨f :: fs, .print f ht ha hu hfs⟩
  | assignment h =>
    cases h with
    | assign ht hpass hprint hu h =>
      obtain ⟨f, rfl, -⟩ := h.exists_form
      exact ⟨[f], .assignment f ht hpass hprint (.inl hu)⟩
    | addAssign ht hpass hprint hu h =>
      obtain ⟨f, rfl, -⟩ := h.exists_form
      exact ⟨[f], .assignment f ht hpass hprint (.inr hu)⟩

/-- A program is as deep as the deepest of its expressions. -/
theorem ProgramForms.lines (h : ProgramForms ts fs) : ∃ ss, Lines (deepest fs) ts ss := by
  induction h with
  | last h =>
    obtain ⟨ss, hline⟩ := h.line
    exact ⟨ss, .last hline⟩
  | cons h ht _ ih =>
    obtain ⟨ss, hline⟩ := h.line
    obtain ⟨ss', hlines⟩ := ih
    rw [deepest_append]
    exact ⟨ss ++ ss', .cons hline ht hlines⟩

theorem Lines.exists_forms (h : Lines d ts ss) : ∃ fs, ProgramForms ts fs := by
  induction h with
  | last h =>
    obtain ⟨fs, hfs⟩ := h.exists_forms
    exact ⟨fs, .last hfs⟩
  | cons h ht _ ih =>
    obtain ⟨fs, hfs⟩ := h.exists_forms
    obtain ⟨fs', hfs'⟩ := ih
    exact ⟨fs ++ fs', .cons hfs ht hfs'⟩

/-! ## Chains -/

/-- Leaves with operators of one level between them. -/
inductive IsChain (level : Level) : (ts : List Token) → Prop
  | leaf {ts : List Token} {e : Expr} (h : IsLeaf ts e) : IsChain level ts
  | link {ts us : List Token} {t : Token} {o : Operator} {e : Expr} (h : IsChain level ts)
      (ht : t.IsOperator o) (ho : o.binding? = some level.binding) (hu : IsLeaf us e) :
      IsChain level (ts ++ t :: us)

/-- A chain of operators that group to the left is an expression of their level. A leaf is all that any
of them has on its right. -/
theorem IsChain.exists_phrase (h : IsChain level ts)
    (hlevel : level.binding.left < level.binding.right) : ∃ d e, Phrase level d ts e ∧ d ≤ 2 := by
  have hprimary : level.binding.left ≤ Level.primary.binding.left ∧
      level.binding.right ≤ Level.primary.binding.left := by cases level <;> decide
  induction h with
  | leaf h => exact ⟨1, _, h.phrase.lift hprimary.1, by omega⟩
  | link h ht ho hu ih =>
    obtain ⟨d, e, hleft, hd⟩ := ih
    exact ⟨_, _, hleft.operation ht ho hu.phrase hlevel hprimary.2, by omega⟩

end Grammar

/-! ## What the limit depends on -/

namespace Parser

theorem isWhole_form (f : Form .sum) {rest : List Token} (hrest : IsEnd rest) :
    IsWhole f.depth (f.tokens ++ rest) :=
  ⟨f.tokens, rest, f.tree, rfl, f.phrase, hrest⟩

/-- **The limit depends on nesting and never on length.** On any stream of tokens, an answer that is
not due to the limit stays the same if the limit is raised. A program is refused for its nesting if and
only if one of its expressions, as it is written, is deeper than the limit; the programs are the
tokens whose expressions can be told. The same holds of a text that is an expression. And leaves with
operators of one precedence between them, which group to the left, are never more than two deep. -/
theorem limit_dependsOnNesting :
    (∀ (n n' : Nat) (s : TokenStream), n ≤ n' →
      (¬ IsStopped ((program n).onStream.run s) →
        (program n').onStream.run s = (program n).onStream.run s) ∧
      (¬ IsStopped ((wholeExpression n).onStream.run s) →
        (wholeExpression n').onStream.run s = (wholeExpression n).onStream.run s)) ∧
    (∀ ts, (∃ d ss, Lines d ts ss) ↔ ∃ fs, ProgramForms ts fs) ∧
    (∀ (n : Nat) (ts : List Token) (fs : List (Form .sum)), ProgramForms ts fs →
      (IsStopped ((program n).onStream.run (.ofTokens ts)) ↔ ∃ f ∈ fs, n < f.depth)) ∧
    (∀ (n : Nat) (f : Form .sum) (rest : List Token), IsEnd rest →
      (IsStopped ((wholeExpression n).onStream.run (.ofTokens (f.tokens ++ rest))) ↔
        n < f.depth)) ∧
    ∀ (level : Level) (ts : List Token), level = .sum ∨ level = .product → IsChain level ts →
      (∃ f : Form .sum, f.tokens = ts) ∧ ∀ f : Form .sum, f.tokens = ts → f.depth ≤ 2 := by
  refine ⟨fun n n' s h => ⟨(extends_program h).onStream_eq, (extends_wholeExpression h).onStream_eq⟩,
    fun ts => ⟨?_, ?_⟩, fun n ts fs hfs => ?_, fun n f rest hrest =>
      reads_wholeExpression.isStopped_iff (isWhole_form f hrest), fun level ts hlevel hts => ?_⟩
  · rintro ⟨d, ss, h⟩
    exact h.exists_forms
  · rintro ⟨fs, h⟩
    exact ⟨_, h.lines⟩
  · rw [reads_program.isStopped_iff hfs.lines, lt_deepest_iff]
  · obtain ⟨d, e, he, hd⟩ : ∃ d e, Phrase .sum d ts e ∧ d ≤ 2 := by
      obtain ⟨d, e, he, hd⟩ := hts.exists_phrase (by rcases hlevel with rfl | rfl <;> decide)
      exact ⟨d, e, he.lift (by rcases hlevel with rfl | rfl <;> decide), hd⟩
    refine ⟨?_, fun f hf => ?_⟩
    · obtain ⟨f, hf, -⟩ := he.exists_form
      exact ⟨f, hf⟩
    · have hwhole : IsWhole d (f.tokens ++ []) := ⟨ts, [], e, by rw [hf], he, .inl rfl⟩
      rw [reads_wholeExpression.depth_unique (isWhole_form f (.inl rfl)) hwhole]
      exact hd

/-- `x += ((1))` is three deep: it is read with a limit of 3, with any greater one, and with no other.
The chain `1 + 1 + 1` is read with a limit of 2. -/
theorem limit_dependsOnNesting_parens :
    let token (kind : TokenKind) (value : Option TokenValue) : Token := ⟨kind, "x", default, value⟩
    let one := token .number (some (.int 1))
    let plus := token .op (some (.op .plus))
    let ts := [token .ident none, token .op (some (.op .addAssign)), token .lparen none,
      token .lparen none, one, token .rparen none, token .rparen none]
    IsStopped ((program 2).onStream.run (.ofTokens ts)) ∧
      (∀ n, 3 ≤ n → ¬ IsStopped ((program n).onStream.run (.ofTokens ts)) ∧
        (program n).onStream.run (.ofTokens ts) = (program 3).onStream.run (.ofTokens ts)) ∧
      ∃ f : Form .sum, f.tokens = [one, plus, one, plus, one] ∧ f.depth ≤ 2 ∧
        ¬ IsStopped ((wholeExpression 2).onStream.run (.ofTokens (f.tokens ++ []))) := by
  intro token one plus ts
  have hone : IsLeaf [one] (.number default 1) := .number rfl rfl
  let leaf : Form .sum := .loosen (.leaf [one] _ hone) (by decide)
  let inner : Form .sum := .loosen (.parens (token .lparen none) (token .rparen none) leaf rfl rfl)
    (by decide)
  let value : Form .sum := .loosen (.parens (token .lparen none) (token .rparen none) inner rfl rfl)
    (by decide)
  have hforms : ProgramForms ts [value] :=
    .last (.assignment value rfl (by decide) (by decide) (.inr ⟨rfl, rfl⟩))
  have hpair : IsChain .sum ([one] ++ plus :: [one]) := .link (.leaf hone) ⟨rfl, rfl⟩ rfl hone
  have hchain : IsChain .sum ([one, plus, one] ++ plus :: [one]) := .link hpair ⟨rfl, rfl⟩ rfl hone
  obtain ⟨hmore, -, hprogram, hwhole, hlength⟩ := limit_dependsOnNesting
  have hread (n : Nat) (hn : 3 ≤ n) : ¬ IsStopped ((program n).onStream.run (.ofTokens ts)) := by
    rw [hprogram n ts _ hforms]
    rintro ⟨f, hf, hlt⟩
    obtain rfl := List.mem_singleton.1 hf
    exact absurd hlt (Nat.not_lt.2 hn)
  refine ⟨(hprogram 2 ts _ hforms).2 ⟨value, List.mem_singleton.2 rfl, Nat.lt_succ_self 2⟩,
    fun n hn => ⟨hread n hn, (hmore 3 n _ hn).1 (hread 3 (Nat.le_refl 3))⟩, ?_⟩
  obtain ⟨⟨f, hf⟩, hdepth⟩ := hlength .sum _ (.inl rfl) hchain
  refine ⟨f, hf, hdepth f hf, ?_⟩
  rw [hwhole 2 f [] (.inl rfl)]
  exact Nat.not_lt.2 (hdepth f hf)

end Parser

end Reckon
