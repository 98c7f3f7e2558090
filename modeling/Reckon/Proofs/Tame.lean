import Reckon.Proofs.Range
import Reckon.Proofs.Shift

/-!
# Expressions with small values

An expression is *tame* if it is made of numbers of two digits and of names by operators that cannot
fail: sums and differences of tame expressions, and products, quotients and remainders whose right
operand is a number of one digit, other than zero where one divides by it.

* `Expr.IsTame.evaluate` bounds the value of a tame expression by the values of its names and by the
  number of its operators.
* `exists_phrase_sum` and `exists_phrase_scaled` are about tame expressions that are written one after
  the other, without parentheses. The tree of the whole is not the one that joins the trees of the
  parts, but it is tame.
* `Stmts.RunSmoothly` says of statements that they run without an error and print lines of digits. It
  is closed under sequencing.
-/

namespace Reckon

open Grammar
open Utterance (texts)

/-! ## Tame expressions -/

/-- The operator multiplies or divides by the digit `n`. -/
def Operator.Scales (o : Operator) (n : Int) : Prop :=
  ((o = .times ∧ 0 ≤ n) ∨ ((o = .div ∨ o = .mod) ∧ 0 < n)) ∧ n ≤ 9

/-- The expression is tame over the names. -/
inductive Expr.IsTame (names : List String) : (e : Expr) → Prop
  | name {span : Span} {ident : String} (h : ident ∈ names) : IsTame names (.name span ident)
  | number {span : Span} {n : Int} (hmin : 0 ≤ n) (hmax : n ≤ 99) : IsTame names (.number span n)
  | sum {span : Span} {l r : Expr} {o : Operator} (ho : o = .plus ∨ o = .minus)
      (hl : IsTame names l) (hr : IsTame names r) : IsTame names (.binary span l o r)
  | scaled {span span' : Span} {l : Expr} {o : Operator} {n : Int} (ho : o.Scales n)
      (hl : IsTame names l) : IsTame names (.binary span l o (.number span' n))

/-- The number of operators in an expression. -/
def Expr.operators : Expr → Nat
  | binary _ left _ right => left.operators + right.operators + 1
  | _ => 0

@[simp] theorem Expr.operators_join (l r : Expr) (o : Operator) :
    (l.join o r).operators = l.operators + r.operators + 1 := rfl

@[simp] theorem Expr.operators_number (span : Span) (n : Int) :
    (Expr.number span n).operators = 0 := rfl

/-! ## Values -/

section Values

variable {names : List String} {o : Operator} {left right n : Int} {a b : Nat}

theorem checked_of_natAbs (failure : RuntimeCause) (h : n.natAbs ≤ 2147483647) :
    checked failure n = .ok n := by
  have hword : IsWord n := by
    rw [IsWord, minWord, maxWord]
    omega
  rw [checked, if_pos hword]

theorem Operator.apply_sum (ho : o = .plus ∨ o = .minus) (hleft : left.natAbs ≤ a)
    (hright : right.natAbs ≤ b) (hab : a + b ≤ 2147483647) :
    ∃ n, o.apply left right = .ok n ∧ n.natAbs ≤ a + b := by
  rcases ho with rfl | rfl
  · have hn : (left + right).natAbs ≤ a + b := by omega
    exact ⟨_, checked_of_natAbs _ (Nat.le_trans hn hab), hn⟩
  · have hn : (left - right).natAbs ≤ a + b := by omega
    exact ⟨_, checked_of_natAbs _ (Nat.le_trans hn hab), hn⟩

theorem Operator.apply_scaled (ho : o.Scales right) (hleft : left.natAbs ≤ a)
    (ha : a * 10 ≤ 2147483647) : ∃ n, o.apply left right = .ok n ∧ n.natAbs ≤ a * 10 := by
  obtain ⟨⟨rfl, hright⟩ | ⟨rfl | rfl, hright⟩, hdigit⟩ := ho
  · have hn : (left * right).natAbs ≤ a * 10 := by
      rw [Int.natAbs_mul]
      exact Nat.mul_le_mul hleft (by omega)
    exact ⟨_, checked_of_natAbs _ (Nat.le_trans hn ha), hn⟩
  · have hn : (left.tdiv right).natAbs ≤ a * 10 := by
      rw [Int.natAbs_tdiv]
      exact Nat.le_trans (Nat.div_le_self _ _) (by omega)
    refine ⟨left.tdiv right, ?_, hn⟩
    rw [Operator.apply_div (by omega)]
    exact checked_of_natAbs _ (Nat.le_trans hn ha)
  · refine ⟨_, Operator.apply_mod (by omega), ?_⟩
    have hmod := Nat.mod_le left.natAbs right.natAbs
    rw [Int.natAbs_tmod]
    omega

/-- The names have values, and none of them is greater than the bound. -/
def Session.Knows (s : Session) (names : List String) (bound : Nat) : Prop :=
  ∀ ident ∈ names, ∃ n, s.vars.get? ident = some n ∧ n.natAbs ≤ bound

theorem Session.Knows.mono {s : Session} {bound bound' : Nat} (h : s.Knows names bound)
    (hle : bound ≤ bound') : s.Knows names bound' := by
  intro ident hident
  obtain ⟨n, hget, hn⟩ := h ident hident
  exact ⟨n, hget, Nat.le_trans hn hle⟩

/-- After an assignment one more name may be known. -/
theorem Session.Knows.assign {s : Session} {names' : List String} {bound : Nat} {ident : String}
    (h : s.Knows names bound) (hn : n.natAbs ≤ bound)
    (hnames : ∀ other ∈ names', other = ident ∨ other ∈ names) :
    Session.Knows { s with vars := s.vars.set ident n } names' bound := by
  intro other hother
  show ∃ m, (s.vars.set ident n).get? other = some m ∧ m.natAbs ≤ bound
  rw [Variables.get?_set]
  by_cases hsame : other = ident
  · exact ⟨n, if_pos hsame, hn⟩
  · rw [if_neg hsame]
    exact h other ((hnames other hother).resolve_left hsame)

theorem Expr.evaluate_name {s : Session} {span : Span} {ident : String}
    (h : s.vars.get? ident = some n) : (Expr.name span ident).evaluate.run s = .ok n s := by
  rw [Expr.evaluate_eq]
  show (Expr.name span ident).evaluateLeaf.run s = _
  rw [Expr.evaluateLeaf, EStateM.run_bind]
  dsimp only [EStateM.run_get]
  rw [h]
  rfl

theorem Expr.evaluate_number {s : Session} {span : Span} (h : n.natAbs ≤ 2147483647) :
    (Expr.number span n).evaluate.run s = .ok n s := by
  rw [Expr.evaluate_eq]
  show (Run.ofResult span (checked _ n)).run s = _
  rw [checked_of_natAbs _ h]
  rfl

theorem Expr.evaluate_binary_of_ok {s s' s'' : Session} {span : Span} {l r : Expr}
    (hl : l.evaluate.run s = .ok left s') (hr : r.evaluate.run s' = .ok right s'')
    (hn : o.apply left right = .ok n) : (Expr.binary span l o r).evaluate.run s = .ok n s'' := by
  rw [Expr.evaluate_binary, EStateM.run_bind, hl]
  dsimp only
  rw [EStateM.run_bind, hr]
  dsimp only
  rw [hn]
  rfl

/-- The bound, made ten times as large so many times. -/
def tenfold (bound : Nat) : (times : Nat) → Nat
  | 0 => bound
  | times + 1 => tenfold bound times * 10

theorem tenfold_le {bound bound' k k' : Nat} (hbound : bound ≤ bound') (hk : k ≤ k') :
    tenfold bound k ≤ tenfold bound' k' := by
  induction k' generalizing k with
  | zero =>
    cases Nat.le_zero.1 hk
    exact hbound
  | succ k' ih =>
    rcases Nat.eq_or_lt_of_le hk with rfl | hlt
    · exact Nat.mul_le_mul_right 10 (ih (Nat.le_refl k'))
    · exact Nat.le_trans (ih (Nat.le_of_lt_succ hlt)) (Nat.le_mul_of_pos_right _ (by decide))

/-- **Tame expressions have values.** With every operator the bound becomes ten times as large. -/
theorem Expr.IsTame.evaluate {e : Expr} {s : Session} {bound : Nat} (h : e.IsTame names)
    (hs : s.Knows names bound) (hbound : 99 ≤ bound)
    (hmax : tenfold bound e.operators ≤ 2147483647) :
    ∃ n, e.evaluate.run s = .ok n s ∧ n.natAbs ≤ tenfold bound e.operators := by
  induction h with
  | @name span ident hident =>
    obtain ⟨n, hget, hn⟩ := hs ident hident
    exact ⟨n, Expr.evaluate_name hget, hn⟩
  | @number span n hmin hdigits =>
    refine ⟨n, Expr.evaluate_number (by omega), ?_⟩
    rw [Expr.operators_number, tenfold]
    omega
  | @sum span l r o ho _ _ ihl ihr =>
    rw [Expr.operators] at hmax ⊢
    have hsum : tenfold bound l.operators + tenfold bound r.operators ≤
        tenfold bound (l.operators + r.operators + 1) := by
      have hleft := tenfold_le (Nat.le_refl bound) (Nat.le_add_right l.operators r.operators)
      have hright := tenfold_le (Nat.le_refl bound) (Nat.le_add_left r.operators l.operators)
      rw [tenfold]
      omega
    obtain ⟨left, hleft, hleft'⟩ := ihl (by omega)
    obtain ⟨right, hright, hright'⟩ := ihr (by omega)
    obtain ⟨n, hn, hn'⟩ := Operator.apply_sum ho hleft' hright' (by omega)
    exact ⟨n, Expr.evaluate_binary_of_ok hleft hright hn, by omega⟩
  | @scaled span span' l o m ho _ ihl =>
    have hdigit : m.natAbs ≤ 2147483647 := by
      obtain ⟨hmin, hmax⟩ := ho
      omega
    rw [Expr.operators, Expr.operators_number, Nat.add_zero, tenfold] at hmax ⊢
    obtain ⟨left, hleft, hleft'⟩ := ihl (by omega)
    obtain ⟨n, hn, hn'⟩ := Operator.apply_scaled ho hleft' hmax
    exact ⟨n, Expr.evaluate_binary_of_ok hleft (Expr.evaluate_number hdigit) hn, hn'⟩

theorem Expr.IsTame.evaluate_of_le {e : Expr} {s : Session} {bound : Nat} (h : e.IsTame names)
    (hcount : e.operators ≤ 3) (hs : s.Knows names bound) (hbound : 99 ≤ bound)
    (hmax : bound ≤ 2000000) : ∃ n, e.evaluate.run s = .ok n s := by
  have hle : tenfold bound e.operators ≤ tenfold 2000000 3 := tenfold_le hmax hcount
  obtain ⟨n, hrun, -⟩ := h.evaluate hs hbound (Nat.le_trans hle (by decide))
  exact ⟨n, hrun⟩

end Values

/-! ## Tame expressions one after the other -/

section Regrouping

variable {names : List String} {d d' : Nat} {ts us : List Token} {t u : Token} {o : Operator}
  {l r : Expr}

/-- The operands of a sum that is tame are tame. -/
theorem Expr.IsTame.of_sum {span : Span} (h : (Expr.binary span l o r).IsTame names)
    (ho : o = .plus ∨ o = .minus) : l.IsTame names ∧ r.IsTame names := by
  cases h with
  | sum _ hl hr => exact ⟨hl, hr⟩
  | scaled hscales _ =>
    obtain ⟨hop, -⟩ := hscales
    rcases ho with rfl | rfl <;> simp at hop

/-- A factor or divisor behind a sum goes to the last of its summands. -/
theorem exists_phrase_scaled {n : Int} (hl : Phrase .sum d ts l) (hltame : l.IsTame names)
    (ht : t.IsOperator o) (ho : o.Scales n) (hkind : u.kind = .number)
    (hvalue : u.value = some (.int n)) :
    ∃ d' e, Phrase .sum d' (ts ++ [t, u]) e ∧ e.IsTame names ∧ e.operators = l.operators + 1 := by
  have hproduct : o = .times ∨ o = .div ∨ o = .mod := by
    obtain ⟨⟨hop, -⟩ | ⟨hop, -⟩, -⟩ := ho
    · exact .inl hop
    · exact .inr hop
  have hnumber : Phrase .power 1 [u] (.number u.span n) := .ofPrimary (.number hkind hvalue)
  cases hl with
  | ofProduct hl =>
    exact ⟨_, _, .ofProduct (.product hl ht hproduct hnumber), .scaled ho hltame, rfl⟩
  | @sum _ _ _ _ _ _ l' r' hleft ht' ho' hright =>
    obtain ⟨hltame', hrtame'⟩ := hltame.of_sum ho'
    rw [List.append_assoc]
    refine ⟨_, _, .sum hleft ht' ho' (.product hright ht hproduct hnumber),
      .sum ho' hltame' (.scaled ho hrtame'), ?_⟩
    simp only [Expr.operators_join, Expr.operators_number]
    omega

/-- A sum behind an operator of sums gives its summands one by one. -/
theorem exists_phrase_sum (hl : Phrase .sum d ts l) (hltame : l.IsTame names)
    (ht : t.IsOperator o) (ho : o = .plus ∨ o = .minus) (hr : Phrase .sum d' us r)
    (hrtame : r.IsTame names) :
    ∃ d'' e, Phrase .sum d'' (ts ++ t :: us) e ∧ e.IsTame names ∧
      e.operators = l.operators + r.operators + 1 := by
  generalize hlevel : Level.sum = level at hr
  induction hr with
  | ofProduct hr => exact ⟨_, _, .sum hl ht ho hr, .sum ho hltame hrtame, rfl⟩
  | @sum d₁ d₂ us₁ us₂ t' o' l' r' hleft ht' ho' hright ihl _ =>
    obtain ⟨hltame', hrtame'⟩ := hrtame.of_sum ho'
    obtain ⟨d'', e, he, hetame, hcount⟩ := ihl hltame' rfl
    have hphrase := Phrase.sum he ht' ho' hright
    rw [List.append_assoc] at hphrase
    refine ⟨_, _, hphrase, .sum ho' hetame hrtame', ?_⟩
    simp only [Expr.operators_join, hcount]
    omega
  | product | ofPower | power | ofPrimary | parens | number | name | input => cases hlevel

end Regrouping

/-! ## Statements -/

/-- Whether the statement prints. -/
def Stmt.isPrint : Stmt → Bool
  | print .. => true
  | _ => false

@[simp] theorem Stmt.isPrint_down (n : Int) (st : Stmt) : (st.down n).isPrint = st.isPrint := by
  cases st <;> rfl

/-- From one session to another nothing was read, and the numbers that were printed make up what was
written. -/
structure Session.Prints (s : Session) (numbers : List Int) (s' : Session) : Prop where
  input : s'.input = s.input
  output : s'.output = s.output ++ texts (numbers.map .value)

namespace Session.Prints

variable {s s' s'' : Session} {numbers numbers' : List Int}

theorem nothing (s : Session) (vars : Variables) : s.Prints [] { s with vars } where
  input := rfl
  output := String.append_empty.symm

theorem append (h : s.Prints numbers s') (h' : s'.Prints numbers' s'') :
    s.Prints (numbers ++ numbers') s'' where
  input := h'.input.trans h.input
  output := by
    rw [h'.output, h.output, String.append_assoc, List.map_append, Utterance.texts_append]

end Session.Prints

/-- **Statements that run smoothly.** Where the first names are known and the values are small enough,
the statements run without an error and print one number for each statement that prints. Then the
second names are known, and no value has grown by more than `growth`. -/
def Stmts.RunSmoothly (names names' : List String) (growth : Nat) (ss : List Stmt) : Prop :=
  ∀ (s : Session) (bound : Nat), s.Knows names bound → 999 ≤ bound →
    bound + growth ≤ 2000000 →
    ∃ s' numbers, (ss.forM Stmt.run).run s = .ok () s' ∧ s'.Knows names' (bound + growth) ∧
      s.Prints numbers s' ∧ numbers.length = ss.countP Stmt.isPrint

namespace Stmts.RunSmoothly

variable {names names' names'' : List String} {growth growth' : Nat} {ss ss' : List Stmt}
  {span span₁ span₂ span₃ : Span} {ident : String} {e : Expr}

theorem nil : RunSmoothly names names 0 [] :=
  fun s _ hs _ _ => ⟨s, [], rfl, hs, .nothing s s.vars, rfl⟩

/-- Statements run one after the other, and the growth adds up. -/
theorem append (h : RunSmoothly names names' growth ss)
    (h' : RunSmoothly names' names'' growth' ss') :
    RunSmoothly names names'' (growth + growth') (ss ++ ss') := by
  intro s bound hs hbound hmax
  obtain ⟨s', numbers, hrun, hs', hprints, hcount⟩ := h s bound hs hbound (by omega)
  obtain ⟨s'', numbers', hrun', hs'', hprints', hcount'⟩ :=
    h' s' (bound + growth) hs' (by omega) (by omega)
  refine ⟨s'', numbers ++ numbers', ?_, ?_, hprints.append hprints', ?_⟩
  · rw [List.forM_eq_forM, List.forM_append, ← List.forM_eq_forM, EStateM.run_bind, hrun]
    exact hrun'
  · rwa [← Nat.add_assoc]
  · rw [List.length_append, List.countP_append, hcount, hcount']

/-- Statements run smoothly further down, too. -/
theorem down (h : RunSmoothly names names' growth ss) (n : Int) :
    RunSmoothly names names' growth (ss.map (Stmt.down n)) := by
  intro s bound hs hbound hmax
  obtain ⟨s', numbers, hrun, hs', hprints, hcount⟩ := h s bound hs hbound hmax
  refine ⟨s', numbers, ?_, hs', hprints, ?_⟩
  · rw [Stmts.run_down]
    exact Run.run_adaptExcept_of_ok _ hrun
  · rw [hcount, List.countP_map]
    exact congrArg (ss.countP ·) (funext fun st => (Stmt.isPrint_down n st).symm)

theorem mono (h : RunSmoothly names names' growth ss) (hle : growth ≤ growth') :
    RunSmoothly names names' growth' ss := by
  intro s bound hs hbound hmax
  obtain ⟨s', numbers, hrun, hs', hrest⟩ := h s bound hs hbound (by omega)
  exact ⟨s', numbers, hrun, hs'.mono (by omega), hrest⟩

theorem pass : RunSmoothly names names 0 [.pass span] :=
  fun s _ hs _ _ => ⟨s, [], rfl, hs, .nothing s s.vars, rfl⟩

theorem print (he : e.IsTame names) (hcount : e.operators ≤ 3) :
    RunSmoothly names names 0 [.print span e] := by
  intro s bound hs hbound hmax
  obtain ⟨n, hrun⟩ := he.evaluate_of_le hcount hs (by omega) (by omega)
  refine ⟨{ s with output := s.output ++ s!"{n}\n" }, [n], ?_, hs, ⟨rfl, ?_⟩, rfl⟩
  · show ((e.evaluate >>= fun n => Run.write s!"{n}\n") >>= fun _ => pure ()).run s = _
    rw [bind_pure, EStateM.run_bind, hrun]
    rfl
  · rw [List.map_singleton, texts, texts, String.append_empty]
    rfl

/-- An assignment makes a name known, provided that the value can be told to be small. -/
theorem assign (he : ∀ (s : Session) (bound : Nat), s.Knows names bound → 999 ≤ bound →
      bound ≤ 2000000 → ∃ n, e.evaluate.run s = .ok n s ∧ n.natAbs ≤ bound + growth)
    (hnames : ∀ other ∈ names', other = ident ∨ other ∈ names) :
    RunSmoothly names names' growth [.assign span ident e] := by
  intro s bound hs hbound hmax
  obtain ⟨n, hrun, hn⟩ := he s bound hs hbound (by omega)
  have hs' : s.Knows names (bound + growth) := hs.mono (by omega)
  refine ⟨_, [], ?_, hs'.assign hn hnames, .nothing s _, rfl⟩
  show ((e.evaluate >>= fun n => Run.assign ident n) >>= fun _ => pure ()).run s = _
  rw [bind_pure, EStateM.run_bind, hrun]
  rfl

/-- A remainder has at most three digits. -/
theorem assign_mod (he : e.IsTame names) (hcount : e.operators ≤ 3)
    (hnames : ∀ other ∈ names', other = ident ∨ other ∈ names) :
    RunSmoothly names names' 0
      [.assign span ident (.binary span₁ e .mod (.number span₂ 1000))] := by
  refine assign (fun s bound hs hbound hmax => ?_) hnames
  obtain ⟨n, hrun⟩ := he.evaluate_of_le hcount hs (by omega) hmax
  refine ⟨n.tmod 1000, Expr.evaluate_binary_of_ok hrun (Expr.evaluate_number (by decide))
    (Operator.apply_mod (by decide)), ?_⟩
  have hmod := Nat.mod_lt n.natAbs (y := 1000) (by decide)
  rw [Int.natAbs_tmod]
  show n.natAbs % 1000 ≤ _
  omega

/-- A known name may be increased. -/
theorem increase {n : Int} (hident : ident ∈ names) (hn : n.natAbs ≤ growth) (hmax : growth ≤ 9) :
    RunSmoothly names names growth
      [.assign span ident (.binary span₁ (.name span₂ ident) .plus (.number span₃ n))] := by
  refine assign (fun s bound hs hbound hbound' => ?_) fun other hother => .inr hother
  obtain ⟨m, hget, hm⟩ := hs ident hident
  obtain ⟨sum, happly, hsum⟩ := Operator.apply_sum (.inl rfl) hm hn (by omega)
  exact ⟨sum, Expr.evaluate_binary_of_ok (Expr.evaluate_name hget)
    (Expr.evaluate_number (by omega)) happly, hsum⟩

end Stmts.RunSmoothly

end Reckon
