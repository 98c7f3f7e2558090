import Reckon.Proofs.Cursor

/-!
# The minimum of an expression

An expression is read with a minimum, and it ends before an operator that holds its left operand less
strongly. With a higher minimum it may end earlier, and then it is the left operand, or the left operand
of the left operand and so on, of what would have been read otherwise.

* `Climb` is a run of the loop over operators in which nothing fails, one operator after the other.
  The minimum decides at which operator the run ends and plays no part in how a right operand is read:
  that is up to the operator before it. `run_operators_eq_ok_iff` ties runs to the loop.
* `climb_iff_resumes` splits a run in two. With a low minimum the loop does what it does with a higher
  one, and then goes on from there.
* `Climb.left_mem_leftSpine` is about the second half: whatever the loop adds to its operand, it adds
  above and to the right of it.
-/

namespace Reckon

/-! ## The left spine -/

namespace Expr

/-- The expression, its left operand, the left operand of that, and so on. -/
def leftSpine : Expr → List Expr
  | e@(binary _ l _ _) => e :: l.leftSpine
  | e => [e]

theorem self_mem_leftSpine (e : Expr) : e ∈ e.leftSpine := by
  cases e with
  | binary => exact List.mem_cons_self
  | name | number | input | misplaced => exact List.mem_singleton_self _

/-- The spine goes on from an operator to its left operand. -/
theorem mem_leftSpine_of_join {e l r : Expr} {o : Operator} (h : l.join o r ∈ e.leftSpine) :
    l ∈ e.leftSpine := by
  induction e with
  | binary s l' o' r' ih _ =>
    refine List.mem_cons_of_mem _ ?_
    rcases List.mem_cons.1 h with htop | hbelow
    · cases htop
      exact self_mem_leftSpine l
    · exact ih hbelow
  | name | number | input | misplaced => cases List.mem_singleton.1 h

end Expr

namespace Parser

variable {operand : Int → Parser Expr} {m n : Int} {left e : Expr} {bound ts rest : List Token}

/-! ## Runs of the loop -/

/-- A run of the loop over operators. It begins with the operand `left` before the tokens `ts`, and ends
with `e` before `rest`. -/
inductive Climb (operand : Int → Parser Expr) (minimum : Int) :
    (left : Expr) → (ts : List Token) → (e : Expr) → (rest : List Token) → Prop
  /-- The expression ends here. -/
  | stop {left : Expr} {ts : List Token} (h : Stops minimum ts) :
      Climb operand minimum left ts left ts
  /-- An operator is read, then its right operand, and then what comes after. -/
  | read {left right e : Expr} {t : Token} {o : Operator} {b : Binding} {us mid rest : List Token}
      (ht : t.IsOperator o) (hb : o.binding? = some b) (hm : minimum ≤ b.left)
      (hright : (operand b.right).run us = .ok right mid)
      (h : Climb operand minimum (left.join o right) mid e rest) :
      Climb operand minimum left (t :: us) e rest

/-- The loop gives what the runs give, if it is not cut off by its bound. -/
theorem run_operators_eq_ok_iff (hoperand : ∀ m, Orderly (operand m))
    (hbound : ts.length ≤ bound.length) :
    (operators operand m bound left).run ts = .ok e rest ↔ Climb operand m left ts e rest := by
  constructor
  · intro h
    induction bound generalizing left ts with
    | nil =>
      obtain rfl := List.length_eq_zero_iff.1 (Nat.le_zero.1 hbound)
      cases h
      exact .stop trivial
    | cons x bound ih =>
      rcases operators_cases h with ⟨hstop, rfl, rfl⟩ | ⟨t, us, o, b, right, mid, rfl, ht, hb, hm,
        hright, hrest⟩
      · exact .stop hstop
      · have hle := (hoperand b.right).length_le hright
        have hmid := Nat.le_trans hle (Nat.le_of_succ_le_succ hbound)
        exact .read ht hb hm hright (ih hmid hrest)
  · intro h
    induction h generalizing bound with
    | stop h => exact run_operators_of_stops h
    | @read _ _ _ _ _ b _ _ _ ht hb hm hright _ ih =>
      cases bound with
      | nil => cases hbound
      | cons x bound =>
        have hle := (hoperand b.right).length_le hright
        rw [run_operators_operator ht hb hm, run_bind_of_ok hright]
        exact ih (Nat.le_trans hle (Nat.le_of_succ_le_succ hbound))

/-- An expression is read by a run of the loop that begins with a primary. -/
theorem run_expression_eq_ok_iff {limit : Nat} :
    (expression (limit + 1) m).run ts = .ok e rest ↔
      ∃ left us, (primary (expression limit 0)).run ts = .ok left us ∧
        Climb (expression limit) m left us e rest := by
  rw [expression, run_bind_eq_ok_iff]
  simp only [run_bind_of_ok run_get,
    run_operators_eq_ok_iff (orderly_expression limit) (Nat.le_refl _)]

namespace Climb

/-- A run ends where the expression does. -/
theorem stops (h : Climb operand m left ts e rest) : Stops m rest := by
  induction h with
  | stop h => exact h
  | read _ _ _ _ _ ih => exact ih

theorem length_le (hoperand : ∀ m, Orderly (operand m)) (h : Climb operand m left ts e rest) :
    rest.length ≤ ts.length := by
  induction h with
  | stop => exact Nat.le_refl _
  | @read _ _ _ _ _ b _ _ _ _ _ _ hright _ ih =>
    have hle := (hoperand b.right).length_le hright
    rw [List.length_cons]
    omega

/-- **What a run begins with stays on the left spine.** -/
theorem left_mem_leftSpine (h : Climb operand m left ts e rest) : left ∈ e.leftSpine := by
  induction h with
  | stop => exact Expr.self_mem_leftSpine _
  | read _ _ _ _ _ ih => exact Expr.mem_leftSpine_of_join ih

end Climb

/-- **A run with a low minimum goes on where one with a higher minimum ends.** -/
theorem climb_iff_resumes (hmn : m ≤ n) :
    Climb operand m left ts e rest ↔
      ∃ e' us, Climb operand n left ts e' us ∧ Climb operand m e' us e rest := by
  constructor
  · intro h
    induction h with
    | @stop left ts h => exact ⟨left, ts, .stop (h.mono hmn), .stop h⟩
    | @read left _ _ t _ b us _ _ ht hb hm hright h ih =>
      by_cases hn : n ≤ b.left
      · obtain ⟨e', vs, hfirst, hsecond⟩ := ih
        exact ⟨e', vs, .read ht hb hn hright hfirst, hsecond⟩
      · -- the first half ends before this operator, and the second one is all of the run
        exact ⟨left, t :: us, .stop (stops_operator ht hb (Int.not_le.1 hn)), .read ht hb hm hright h⟩
  · rintro ⟨e', us, hfirst, hsecond⟩
    induction hfirst with
    | stop => exact hsecond
    | read ht hb hn hright _ ih => exact .read ht hb (Int.le_trans hmn hn) hright (ih hsecond)

/-- What a higher minimum does to an expression, in terms of the tokens that are left. -/
theorem expression_cutShort {limit : Nat} (hmn : m ≤ n)
    (h : (expression limit m).run ts = .ok e rest) :
    ∃ e' us, (expression limit n).run ts = .ok e' us ∧
      ((e' = e ∧ us = rest) ∨
        ∃ t vs o b right, us = t :: vs ∧ t.IsOperator o ∧ o.binding? = some b ∧ m ≤ b.left ∧
          b.left < n ∧ rest.length < us.length ∧ e'.join o right ∈ e.leftSpine) := by
  cases limit with
  | zero => cases h
  | succ limit =>
    obtain ⟨left, mid, hleft, hclimb⟩ := run_expression_eq_ok_iff.1 h
    obtain ⟨e', us, hfirst, hsecond⟩ := (climb_iff_resumes hmn).1 hclimb
    refine ⟨e', us, run_expression_eq_ok_iff.2 ⟨left, mid, hleft, hfirst⟩, ?_⟩
    cases hsecond with
    | stop => exact .inl ⟨rfl, rfl⟩
    | @read _ right _ t o b vs _ _ ht hb hm hright hclimb =>
      have hlt : rest.length < vs.length + 1 := Nat.lt_succ_of_le <|
        Nat.le_trans (hclimb.length_le (orderly_expression limit))
          ((orderly_expression limit b.right).length_le hright)
      exact .inr ⟨t, vs, o, b, right, rfl, ht, hb, hm, hfirst.stops.left_lt ht hb, hlt,
        hclimb.left_mem_leftSpine⟩

/-! ## Two minimums on one stream -/

/-- **A higher minimum only cuts an expression short on its left spine.** Where an expression can be read
with a minimum, it can be read with every higher one. It then ends no later, and it is on the left spine
of the other. If it ends at the same place it is the same; if it ends earlier, it does so at an operator
of arithmetic that is strong enough for the lower minimum and not for the higher one, and it is the left
operand of that operator. -/
theorem minimum_cutsLeftSpine (limit : Nat) (m n : Int) (hmn : m ≤ n) (s s₁ : TokenStream) (e : Expr)
    (h : (expression limit m).onStream.run s = .ok e s₁) :
    ∃ e' s', (expression limit n).onStream.run s = .ok e' s' ∧
      s'.tokens = s.tokens ∧
      s'.index ≤ s₁.index ∧
      e' ∈ e.leftSpine ∧
      (s'.index = s₁.index → e' = e) ∧
      (s'.index < s₁.index → ∃ t o b right, s.tokens[s'.index]? = some t ∧ t.IsOperator o ∧
        o.binding? = some b ∧ m ≤ b.left ∧ b.left < n ∧ e'.join o right ∈ e.leftSpine) := by
  obtain ⟨rest, hrun, rfl⟩ := exists_of_onStream_ok h
  obtain ⟨e', us, hrun', hcut⟩ := expression_cutShort hmn hrun
  have hsuffix : us <:+ s.tokens :=
    ((orderly_expression limit n).suffix_of_ok hrun').trans (List.drop_suffix _ _)
  refine ⟨e', _, onStream_of_run_rest hrun', rfl, ?_⟩
  rcases hcut with ⟨rfl, rfl⟩ | ⟨t, vs, o, b, right, rfl, ht, hb, hm, hn, hlt, hspine⟩
  · exact ⟨Nat.le_refl _, Expr.self_mem_leftSpine _, fun _ => rfl,
      fun hlt => absurd hlt (Nat.lt_irrefl _)⟩
  · -- positions are counted from the end of the tokens
    have hindex : (TokenStream.cursor s.tokens (t :: vs)).index <
        (TokenStream.cursor s.tokens rest).index :=
      Nat.sub_lt_sub_left (Nat.lt_of_lt_of_le hlt hsuffix.length_le) hlt
    refine ⟨Nat.le_of_lt hindex, Expr.mem_leftSpine_of_join hspine,
      fun heq => absurd heq (Nat.ne_of_lt hindex), fun _ => ?_⟩
    exact ⟨t, o, b, right, TokenStream.getElem?_cursor hsuffix 0, ht, hb, hm, hn, hspine⟩

/-- In `x = a ** b * c + d` the value is read with a minimum of 0 to the end. With a minimum of 4 it is
`a ** b`, two left operands down, and ends before `*`. -/
theorem minimum_cutsLeftSpine_power :
    let word (name : String) (col : Int) : Token := ⟨.ident, name, .point ⟨1, col⟩, none⟩
    let op (o : Operator) (col : Int) : Token := ⟨.op, o.symbol, .point ⟨1, col⟩, some (.op o)⟩
    let ts := [word "x" 1, op .assign 2, word "a" 3, op .pow 4, word "b" 5, op .times 6, word "c" 7,
      op .plus 8, word "d" 9]
    let name (ident : String) (col : Int) : Expr := .name (.point ⟨1, col⟩) ident
    let power := (name "a" 3).join .pow (name "b" 5)
    let sum := (power.join .times (name "c" 7)).join .plus (name "d" 9)
    (expression 2 0).onStream.run ⟨ts, 2⟩ = .ok sum ⟨ts, 9⟩ ∧
      (expression 2 4).onStream.run ⟨ts, 2⟩ = .ok power ⟨ts, 5⟩ ∧ power ∈ sum.leftSpine ∧
      ∃ t o b right, ts[5]? = some t ∧ t.IsOperator o ∧ o.binding? = some b ∧ 0 ≤ b.left ∧
        b.left < 4 ∧ power.join o right ∈ sum.leftSpine := by
  intro word op ts name power sum
  have hlow : (expression 2 0).onStream.run ⟨ts, 2⟩ = .ok sum ⟨ts, 9⟩ := rfl
  have hhigh : (expression 2 4).onStream.run ⟨ts, 2⟩ = .ok power ⟨ts, 5⟩ := rfl
  obtain ⟨e', s', hrun, -, -, hspine, -, hcut⟩ :=
    minimum_cutsLeftSpine 2 0 4 (by decide) ⟨ts, 2⟩ ⟨ts, 9⟩ sum hlow
  cases hhigh.symm.trans hrun
  exact ⟨hlow, hhigh, hspine, hcut (by decide)⟩

end Parser

end Reckon
