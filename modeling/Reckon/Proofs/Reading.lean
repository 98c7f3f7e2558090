import Reckon.Proofs.Grammar
import Reckon.Source

/-!
# Reading follows the grammar

The readers of `Reckon.Tree.Parser` accept what the rules of `Reckon.Proofs.Grammar` describe and
nothing else, and they build the trees that the rules assign.

## Shape of the proof

The rules for operators recurse to the left and the reader loops, so neither follows the other. What
links them is the point where the loop stands: `left` is a phrase of some level, and the next
operator does not hold it as strongly as the level holds together.

* `operators_sound` carries that invariant through the loop. Each operator that is read gives a
  phrase of its own level, and whatever ends its right operand is too weak for that level.
* `Grows` says the converse: reading tokens of a phrase, whatever may follow them, comes down to the
  loop with the phrase as its `left`. It is proved along the rules, by `Grows.operation` for all
  three kinds of operators.

Both directions keep count of the depth, so a phrase that is nested too deeply is known to be refused
for that reason.
-/

namespace Reckon

open Grammar

namespace Parser

/-! ## Readers one after the other -/

section Sequencing

variable {α β : Type} {p : Parser α} {f : α → Parser β} {ts us rest : List Token}

theorem run_bind_of_ok {a : α} (h : p.run ts = .ok a rest) :
    (p >>= f).run ts = (f a).run rest := by
  rw [EStateM.run_bind, h]

theorem run_bind_of_error {r : Rejection} (h : p.run ts = .error r rest) :
    (p >>= f).run ts = .error r rest := by
  rw [EStateM.run_bind, h]

theorem run_bind_eq_ok_iff {b : β} :
    (p >>= f).run ts = .ok b us ↔ ∃ a rest, p.run ts = .ok a rest ∧ (f a).run rest = .ok b us := by
  rw [EStateM.run_bind]
  cases hp : p.run ts with
  | error r rest => simp
  | ok a rest =>
    constructor
    · intro h
      exact ⟨a, rest, rfl, h⟩
    · rintro ⟨a', rest', hp', h⟩
      cases hp'
      exact h

theorem run_get : (get : Parser (List Token)).run ts = .ok ts ts := rfl

theorem run_expect_of_kind {t : Token} {kind : TokenKind} (ht : t.kind = kind) :
    (expect kind).run (t :: ts) = .ok t ts := by
  rw [run_expect_cons, if_pos ht]

theorem run_expect_eq_ok_iff {t : Token} {kind : TokenKind} :
    (expect kind).run ts = .ok t rest ↔ ts = t :: rest ∧ t.kind = kind := by
  cases ts with
  | nil => simp
  | cons u us =>
    rw [run_expect_cons]
    by_cases hu : u.kind = kind
    · rw [if_pos hu, EStateM.Result.ok.injEq, List.cons.injEq]
      constructor
      · rintro ⟨rfl, rfl⟩
        exact ⟨⟨rfl, rfl⟩, hu⟩
      · exact And.left
    · rw [if_neg hu, List.cons.injEq]
      constructor
      · intro h
        cases h
      · rintro ⟨⟨rfl, -⟩, ht⟩
        exact absurd ht hu

end Sequencing

/-! ## Leaves and primaries -/

section Primary

variable {inner : Parser Expr} {t a s u : Token} {ts rest : List Token} {e : Expr}

theorem run_leaf_number {n : Int} (ht : t.kind = .number) (hn : t.value = some (.int n)) :
    leaf.run (t :: ts) = .ok (.number t.span n) ts := by
  rw [leaf, run_bind_of_ok (run_current_cons t ts)]
  simp only [ht, hn]
  rfl

/-- A number is skipped before its value is missed. -/
theorem run_leaf_malformed (ht : t.kind = .number) (hn : ¬ ∃ n, t.value = some (.int n)) :
    leaf.run (t :: ts) = .error .malformed ts := by
  rw [leaf, run_bind_of_ok (run_current_cons t ts)]
  simp only [ht]
  rw [run_bind_of_ok (run_skip _)]
  split
  · next n hv => exact absurd ⟨n, hv⟩ hn
  · rfl

/-- A word is a name unless it is `input` and a parenthesis follows. -/
theorem run_leaf_ident (ht : t.kind = .ident) :
    leaf.run (t :: ts) =
      if t.lexeme = "input" ∧ ts.head?.map Token.kind = some .lparen then input.run (t :: ts)
      else .ok (.name t.span t.lexeme) ts := by
  have hnext : (t :: ts)[1]? = ts.head? := by simp [List.head?_eq_getElem?]
  rw [leaf, run_bind_of_ok (run_current_cons t ts)]
  simp only [ht]
  rw [run_bind_of_ok run_get, hnext]
  split <;> rfl

theorem run_input :
    input.run (t :: ts) = (do
      let _ ← expect .lparen
      let prompt ← expect .string
      let close ← expect .rparen
      return .input (t.span.join close.span) prompt.lexeme : Parser Expr).run ts := rfl

theorem run_input_of_kinds (ha : a.kind = .lparen) (hs : s.kind = .string)
    (hu : u.kind = .rparen) :
    input.run (t :: a :: s :: u :: ts) = .ok (.input (t.span.join u.span) s.lexeme) ts := by
  rw [run_input, run_bind_of_ok (run_expect_of_kind ha), run_bind_of_ok (run_expect_of_kind hs),
    run_bind_of_ok (run_expect_of_kind hu)]
  rfl

theorem run_primary_parens (ht : t.kind = .lparen) :
    (primary inner).run (t :: ts) =
      (do let e ← inner; let _ ← expect .rparen; return e : Parser Expr).run ts := by
  rw [primary, run_bind_of_ok (run_current_cons t ts)]
  simp only [ht]
  rfl

theorem run_primary_leaf (ht : t.kind = .ident ∨ t.kind = .number) :
    (primary inner).run (t :: ts) = leaf.run (t :: ts) := by
  rw [primary, run_bind_of_ok (run_current_cons t ts)]
  rcases ht with ht | ht <;> simp only [ht]

theorem run_primary_unexpected (hopen : t.kind ≠ .lparen) (hident : t.kind ≠ .ident)
    (hnumber : t.kind ≠ .number) :
    (primary inner).run (t :: ts) = .error (.cause (.unexpected .expression t)) (t :: ts) := by
  rw [primary, run_bind_of_ok (run_current_cons t ts)]
  cases hk : t.kind with
  | lparen => exact absurd hk hopen
  | ident => exact absurd hk hident
  | number => exact absurd hk hnumber
  | _ => rfl

/-- What a leaf is made of. -/
theorem leaf_sound (h : leaf.run ts = .ok e rest) :
    ∃ ws, ts = ws ++ rest ∧ Phrase .primary 1 ws e := by
  cases ts with
  | nil => cases h
  | cons t ts =>
    cases hk : t.kind with
    | number =>
      rw [leaf, run_bind_of_ok (run_current_cons t ts)] at h
      simp only [hk] at h
      rw [run_bind_of_ok (run_skip _)] at h
      split at h
      · next n hn =>
        cases h
        exact ⟨[t], rfl, .number hk hn⟩
      · cases h
    | ident =>
      rw [run_leaf_ident hk] at h
      split at h
      · next hinput =>
        rw [run_input, run_bind_eq_ok_iff] at h
        obtain ⟨a, ts₁, h₁, h⟩ := h
        obtain ⟨s, ts₂, h₂, h⟩ := run_bind_eq_ok_iff.1 h
        obtain ⟨u, ts₃, h₃, h⟩ := run_bind_eq_ok_iff.1 h
        cases h
        obtain ⟨rfl, ha⟩ := run_expect_eq_ok_iff.1 h₁
        obtain ⟨rfl, hs⟩ := run_expect_eq_ok_iff.1 h₂
        obtain ⟨rfl, hu⟩ := run_expect_eq_ok_iff.1 h₃
        refine ⟨[t, a, s, u], rfl, .input ?_ ha hs hu⟩
        simp [Token.isWord, hk, hinput.1]
      · cases h
        exact ⟨[t], rfl, .name hk⟩
    | _ =>
      rw [leaf, run_bind_of_ok (run_current_cons t ts)] at h
      simp only [hk] at h
      cases h

/-- What a primary is made of, if `inner` reads sums. -/
theorem primary_sound {n : Nat}
    (hinner : ∀ {ts e rest}, inner.run ts = .ok e rest →
      ∃ d ws, ts = ws ++ rest ∧ Phrase .sum d ws e ∧ d ≤ n)
    (h : (primary inner).run ts = .ok e rest) :
    ∃ d ws, ts = ws ++ rest ∧ Phrase .primary d ws e ∧ d ≤ n + 1 := by
  cases ts with
  | nil => cases h
  | cons t ts =>
    by_cases hopen : t.kind = .lparen
    · rw [run_primary_parens hopen, run_bind_eq_ok_iff] at h
      obtain ⟨e', ts₁, h₁, h⟩ := h
      obtain ⟨u, ts₂, h₂, h⟩ := run_bind_eq_ok_iff.1 h
      cases h
      obtain ⟨d, ws, rfl, hws, hd⟩ := hinner h₁
      obtain ⟨rfl, hu⟩ := run_expect_eq_ok_iff.1 h₂
      exact ⟨d + 1, t :: (ws ++ [u]), by simp, .parens hopen hws hu, by omega⟩
    · by_cases hleaf : t.kind = .ident ∨ t.kind = .number
      · rw [run_primary_leaf hleaf] at h
        obtain ⟨ws, hts, hws⟩ := leaf_sound h
        exact ⟨1, ws, hts, hws, by omega⟩
      · rw [run_primary_unexpected hopen (fun hk => hleaf (.inl hk))
          (fun hk => hleaf (.inr hk))] at h
        cases h

end Primary

/-! ## Where an expression ends -/

/-- An expression that was asked for with the given minimum ends where these tokens begin: at the end
of the input, before a newline or a closing parenthesis, or before an operator whose hold is less
than the minimum. -/
def Stops (minimum : Int) : List Token → Prop
  | [] => True
  | t :: _ =>
    t.kind = .newline ∨ t.kind = .rparen ∨
      ∃ o b, t.IsOperator o ∧ o.binding? = some b ∧ b.left < minimum

section Stops

variable {m m' : Int} {t : Token} {o : Operator} {b : Binding} {ts : List Token}

theorem Stops.mono (h : Stops m ts) (hm : m ≤ m') : Stops m' ts := by
  cases ts with
  | nil => trivial
  | cons t ts =>
    rcases h with hk | hk | ⟨o, b, ht, hb, hlt⟩
    · exact .inl hk
    · exact .inr (.inl hk)
    · exact .inr (.inr ⟨o, b, ht, hb, by omega⟩)

theorem stops_operator (ht : t.IsOperator o) (hb : o.binding? = some b) (hlt : b.left < m) :
    Stops m (t :: ts) :=
  .inr (.inr ⟨o, b, ht, hb, hlt⟩)

/-- An operator at which an expression ends holds less than the minimum. -/
theorem Stops.left_lt (h : Stops m (t :: ts)) (ht : t.IsOperator o) (hb : o.binding? = some b) :
    b.left < m := by
  rcases h with hk | hk | ⟨o', b', ht', hb', hlt⟩
  · rw [ht.1] at hk
    cases hk
  · rw [ht.1] at hk
    cases hk
  · obtain rfl : o = o' := by
      have hv := ht.2
      rw [ht'.2] at hv
      cases hv
      rfl
    rw [hb] at hb'
    cases hb'
    exact hlt

end Stops

/-! ## The loop over operators -/

section Operators

variable {operand : Int → Parser Expr} {m : Int} {bound : List Token} {left e : Expr} {x t : Token}
  {o : Operator} {b : Binding} {ts rest : List Token}

/-- The loop ends where the expression does. -/
theorem run_operators_of_stops (h : Stops m ts) :
    (operators operand m bound left).run ts = .ok left ts := by
  cases bound with
  | nil => rfl
  | cons x bound =>
    cases ts with
    | nil => rfl
    | cons t ts =>
      rw [operators, run_bind_of_ok (run_peek? _)]
      rcases h with hk | hk | ⟨o, b, ⟨hk, hv⟩, hb, hlt⟩
      · simp only [List.head?_cons, hk]
        rfl
      · simp only [List.head?_cons, hk]
        rfl
      · simp only [List.head?_cons, hk, hv, hb, if_pos hlt]
        rfl

/-- An operator that holds `left` strongly enough is read together with its right operand. -/
theorem run_operators_operator (ht : t.IsOperator o) (hb : o.binding? = some b)
    (hm : m ≤ b.left) :
    (operators operand m (x :: bound) left).run (t :: ts) =
      (operand b.right >>= fun right => operators operand m bound (left.join o right)).run ts := by
  rw [operators, run_bind_of_ok (run_peek? _)]
  simp only [List.head?_cons, ht.1, ht.2, hb, if_neg (Int.not_lt.2 hm)]
  rfl

/-- Before a token the loop ends, or reads an operator, or refuses the token. The token alone decides
which of these it is. -/
theorem operators_verdict (m : Int) (t : Token) :
    (∀ ts, Stops m (t :: ts)) ∨
      (∃ o b, t.IsOperator o ∧ o.binding? = some b ∧ m ≤ b.left) ∨
      ∃ r, (¬ t.IsWellFormed ∧ r = .malformed ∨ ∃ wanted, r = .cause (.unexpected wanted t)) ∧
        ∀ (operand : Int → Parser Expr) (x : Token) (bound : List Token) (left : Expr)
          (ts : List Token),
          (operators operand m (x :: bound) left).run (t :: ts) = .error r (t :: ts) := by
  cases hk : t.kind with
  | newline => exact .inl fun ts => .inl hk
  | rparen => exact .inl fun ts => .inr (.inl hk)
  | op =>
    by_cases hv : ∃ o, t.value = some (.op o)
    · obtain ⟨o, hv⟩ := hv
      cases hb : o.binding? with
      | none =>
        refine .inr (.inr ⟨_, .inr ⟨.arithmeticOperator, rfl⟩, fun operand x bound left ts => ?_⟩)
        rw [operators, run_bind_of_ok (run_peek? _)]
        simp only [List.head?_cons, hk, hv, hb]
        rfl
      | some b =>
        by_cases hlt : b.left < m
        · exact .inl fun ts => stops_operator ⟨hk, hv⟩ hb hlt
        · exact .inr (.inl ⟨o, b, ⟨hk, hv⟩, hb, Int.not_lt.1 hlt⟩)
    · have hwf : ¬ t.IsWellFormed := fun hwf => hv (hwf.2 hk)
      refine .inr (.inr ⟨_, .inl ⟨hwf, rfl⟩, fun operand x bound left ts => ?_⟩)
      rw [operators, run_bind_of_ok (run_peek? _)]
      simp only [List.head?_cons, hk]
      split
      · next o ho => exact absurd ⟨o, ho⟩ hv
      · rfl
  | comma | ident | number | string | lparen =>
    refine .inr (.inr ⟨_, .inr ⟨.operatorOrEnd, rfl⟩, fun operand x bound left ts => ?_⟩)
    rw [operators, run_bind_of_ok (run_peek? _)]
    simp only [List.head?_cons, hk]
    rfl

/-- What the loop did, if it did not fail: it ended at once, or it read an operator and went on. -/
theorem operators_cases (h : (operators operand m (x :: bound) left).run ts = .ok e rest) :
    (Stops m ts ∧ e = left ∧ rest = ts) ∨
      ∃ t us o b right mid, ts = t :: us ∧ t.IsOperator o ∧ o.binding? = some b ∧ m ≤ b.left ∧
        (operand b.right).run us = .ok right mid ∧
        (operators operand m bound (left.join o right)).run mid = .ok e rest := by
  cases ts with
  | nil =>
    cases h
    exact .inl ⟨trivial, rfl, rfl⟩
  | cons t ts =>
    rcases operators_verdict m t with hstop | ⟨o, b, ht, hb, hm⟩ | ⟨r, -, herr⟩
    · rw [run_operators_of_stops (hstop ts)] at h
      cases h
      exact .inl ⟨hstop ts, rfl, rfl⟩
    · rw [run_operators_operator ht hb hm, run_bind_eq_ok_iff] at h
      obtain ⟨right, mid, hright, hrest⟩ := h
      exact .inr ⟨t, ts, o, b, right, mid, rfl, ht, hb, hm, hright, hrest⟩
    · rw [herr] at h
      cases h

/-- The tokens `ts` begin with a phrase that all the operators hold at least as strongly as the
minimum, that has the tree `e`, and after which `rest` is left. -/
def Begins (limit : Nat) (minimum : Int) (ts : List Token) (e : Expr) (rest : List Token) : Prop :=
  ∃ level d ws, ts = ws ++ rest ∧ Phrase level d ws e ∧ minimum ≤ level.binding.left ∧
    d ≤ limit ∧ Stops minimum rest

/-- The loop invariant: if `left` is a phrase and the next operator is too weak to be part of it,
then the loop adds to `left` what makes it a phrase again. -/
theorem operators_sound {n : Nat}
    (hoperand : ∀ {m ts e rest}, m ≤ 6 → (operand m).run ts = .ok e rest → Begins n m ts e rest)
    {level : Level} {d : Nat} {ws : List Token} (hbound : ts.length ≤ bound.length)
    (hleft : Phrase level d ws left) (hm : m ≤ level.binding.left) (hd : d ≤ n + 1)
    (hnext : ∀ t us o b, ts = t :: us → t.IsOperator o → o.binding? = some b →
      b.left < level.binding.right)
    (h : (operators operand m bound left).run ts = .ok e rest) :
    Begins (n + 1) m (ws ++ ts) e rest := by
  induction bound generalizing left level d ws ts with
  | nil =>
    obtain rfl : ts = [] := List.length_eq_zero_iff.1 (Nat.le_zero.1 hbound)
    cases h
    exact ⟨level, d, ws, rfl, hleft, hm, hd, trivial⟩
  | cons x bound ih =>
    rcases operators_cases h with ⟨hstop, rfl, rfl⟩ | ⟨t, us, o, b, right, mid, rfl, ht, hb, hmb,
      hright, hrest⟩
    · exact ⟨level, d, ws, rfl, hleft, hm, hd, hstop⟩
    · obtain ⟨own, rfl, hown⟩ := exists_level hb
      have hle : own.binding.right ≤ 6 := by revert hown; cases own <;> decide
      obtain ⟨k', d', vs, rfl, hvs, hk', hd', hstop⟩ := hoperand hle hright
      -- the joined phrase stands at the level of its operator, and what ended the right operand
      -- is too weak for that level
      have hjoin := hleft.operation ht hb hvs (hnext t _ o _ rfl ht hb) hk'
      have hlen : mid.length ≤ bound.length := by
        simp only [List.length_cons, List.length_append] at hbound
        omega
      have hgoal := ih hlen hjoin hmb (by omega)
        (fun t' us' o' b' hmid ht' hb' => Stops.left_lt (hmid ▸ hstop) ht' hb') hrest
      simpa using hgoal

end Operators

/-- **What is read as an expression is one.** -/
theorem expression_sound {n : Nat} {m : Int} {ts rest : List Token} {e : Expr} (hm : m ≤ 6)
    (h : (expression n m).run ts = .ok e rest) : Begins n m ts e rest := by
  induction n generalizing m ts e rest with
  | zero => cases h
  | succ n ih =>
    rw [expression, run_bind_eq_ok_iff] at h
    obtain ⟨left, mid, hleft, h⟩ := h
    rw [run_bind_of_ok run_get] at h
    obtain ⟨d, ws, rfl, hws, hd⟩ := primary_sound (n := n) (fun {ts e rest} hinner => by
      obtain ⟨k, d, ws, hts, hws, hk, hd, -⟩ := ih (by decide) hinner
      exact ⟨d, ws, hts, hws.lift (by cases k <;> decide), hd⟩) hleft
    refine operators_sound ih (Nat.le_refl _) hws (Int.le_trans hm (by decide)) hd ?_ h
    intro t us o b _ _ hb
    cases o <;> cases hb <;> decide

/-! ## From the grammar to the reader -/

section Limited

variable {α β : Type} {p q : Parser α} {n d d' : Nat} {ts rest : List Token} {a : α}
  {r r' r'' : EStateM.Result Rejection (List Token) α}

/-- What a limit on the depth makes of an answer: below the limit `r` is the answer `r'`, and beyond
it `r` is a refusal for that reason. -/
def Limited (limit depth : Nat) (r r' : EStateM.Result Rejection (List Token) α) : Prop :=
  (depth ≤ limit → r = r') ∧ (limit < depth → ∃ us, r = .error (.cause .nestedTooDeeply) us)

theorem Limited.of_eq (h : r = r') (hd : d ≤ n) : Limited n d r r' :=
  ⟨fun _ => h, fun hlt => absurd hd (by omega)⟩

theorem Limited.trans (h : Limited n d r r') (h' : Limited n d' r' r'') :
    Limited n (max d d') r r'' := by
  constructor
  · intro hd
    rw [h.1 (by omega), h'.1 (by omega)]
  · intro hd
    by_cases hd₁ : d ≤ n
    · rw [h.1 hd₁]
      exact h'.2 (by omega)
    · exact h.2 (by omega)

theorem Limited.succ (h : Limited n d r r') : Limited (n + 1) (d + 1) r r' :=
  ⟨fun hd => h.1 (by omega), fun hd => h.2 (by omega)⟩

/-- A limited answer stays one, whatever is read next. -/
theorem Limited.bind (f : α → Parser β) (h : Limited n d (p.run ts) (q.run rest)) :
    Limited n d ((p >>= f).run ts) ((q >>= f).run rest) := by
  constructor
  · intro hd
    rw [EStateM.run_bind, EStateM.run_bind, h.1 hd]
  · intro hd
    obtain ⟨us, herr⟩ := h.2 hd
    exact ⟨us, run_bind_of_error herr⟩

theorem Limited.bind_ok (f : α → Parser β) (h : Limited n d (p.run ts) (.ok a rest)) :
    Limited n d ((p >>= f).run ts) ((f a).run rest) :=
  Limited.bind (q := pure a) f h

end Limited

section Growing

variable {level k k' : Level} {d d' n : Nat} {m : Int} {ws us rest : List Token} {t : Token}
  {o : Operator} {e l r : Expr}

/-- Reading the tokens `ws` at the start of an expression comes down to the loop with `e` as its left
operand, whatever follows them, as long as it does not belong to a phrase of the level. -/
def Grows (level : Level) (d : Nat) (ws : List Token) (e : Expr) : Prop :=
  ∀ (n : Nat) (m : Int) (rest : List Token), m ≤ level.binding.left →
    Stops level.binding.right rest →
    ∃ bound : List Token, rest.length ≤ bound.length ∧
      Limited (n + 1) d ((expression (n + 1) m).run (ws ++ rest))
        ((operators (expression n) m bound e).run rest)

/-- Where an expression ends after the tokens, it is read to its end. -/
theorem Grows.run_expression (h : Grows level d ws e) (hpos : 0 < d)
    (hleft : m ≤ level.binding.left) (hright : m ≤ level.binding.right) (hstop : Stops m rest) :
    Limited n d ((expression n m).run (ws ++ rest)) (.ok e rest) := by
  cases n with
  | zero => exact ⟨fun hd => absurd hd (by omega), fun _ => ⟨_, rfl⟩⟩
  | succ n =>
    obtain ⟨bound, -, hrun⟩ := h n m rest hleft (hstop.mono hright)
    rwa [run_operators_of_stops hstop] at hrun

/-- An operator between two phrases. -/
theorem Grows.operation (left : Grows k d ws l) (ht : t.IsOperator o)
    (ho : o.binding? = some level.binding) (right : Grows k' d' us r) (hpos : 0 < d')
    (hkl : level.binding.left ≤ k.binding.left) (hkr : level.binding.left < k.binding.right)
    (hkl' : level.binding.right ≤ k'.binding.left)
    (hkr' : level.binding.right ≤ k'.binding.right) :
    Grows level (max d (d' + 1)) (ws ++ t :: us) (l.join o r) := by
  intro n m rest hm hstop
  obtain ⟨bound, hbound, hleft⟩ :=
    left n m (t :: (us ++ rest)) (by omega) (stops_operator ht ho hkr)
  have hassoc : ws ++ t :: us ++ rest = ws ++ t :: (us ++ rest) := by simp
  cases bound with
  | nil => simp at hbound
  | cons x bound =>
    simp only [List.length_cons, List.length_append] at hbound
    refine ⟨bound, by omega, ?_⟩
    -- once the left operand is read the loop sees the operator, and its right operand is one
    -- expression deeper
    rw [hassoc]
    rw [run_operators_operator ht ho hm] at hleft
    exact hleft.trans ((right.run_expression hpos hkl' hkr' hstop).bind_ok _).succ

/-- A phrase of a tighter level in the place of one of a looser level. -/
theorem Grows.lift (h : Grows k d ws e) (hl : level.binding.left ≤ k.binding.left)
    (hr : level.binding.right ≤ k.binding.right) : Grows level d ws e := by
  intro n m rest hm hstop
  exact h n m rest (by omega) (hstop.mono hr)

/-- Once a primary is read the loop starts. -/
theorem grows_primary (hprimary : ∀ n rest, Stops 7 rest →
      Limited (n + 1) d ((primary (expression n 0)).run (ws ++ rest)) (.ok e rest)) :
    Grows .primary d ws e := by
  intro n m rest _ hstop
  exact ⟨rest, Nat.le_refl _, (hprimary n rest hstop).bind_ok _⟩

/-- Tokens of a leaf. -/
theorem grows_leaf (hhead : t.kind = .ident ∨ t.kind = .number)
    (hleaf : ∀ rest, Stops 7 rest → leaf.run (t :: (us ++ rest)) = .ok e rest) :
    Grows .primary 1 (t :: us) e := by
  refine grows_primary fun n rest hstop => .of_eq ?_ (by omega)
  rw [List.cons_append, run_primary_leaf hhead]
  exact hleaf rest hstop

/-- An expression in parentheses. -/
theorem Grows.parens {u : Token} (h : Grows .sum d ws e) (hpos : 0 < d) (ht : t.kind = .lparen)
    (hu : u.kind = .rparen) : Grows .primary (d + 1) (t :: (ws ++ [u])) e := by
  refine grows_primary fun n rest _ => ?_
  have hassoc : t :: (ws ++ [u]) ++ rest = t :: (ws ++ u :: rest) := by simp
  have hclose : Stops 0 (u :: rest) := .inr (.inl hu)
  have hinner := h.run_expression (n := n) hpos (by decide) (by decide) hclose
  have hexpect : (do let _ ← expect .rparen; return e : Parser Expr).run (u :: rest) =
      .ok e rest := by
    rw [run_bind_of_ok (run_expect_of_kind hu)]
    rfl
  rw [hassoc, run_primary_parens ht, ← hexpect]
  exact (hinner.bind_ok _).succ

/-- **Every phrase is read.** -/
theorem grows (h : Phrase level d ws e) : Grows level d ws e := by
  induction h with
  | sum _ ht ho right ihl ihr =>
    refine ihl.operation ht ?_ ihr right.depth_pos (by decide) (by decide) (by decide) (by decide)
    rcases ho with rfl | rfl <;> rfl
  | product _ ht ho right ihl ihr =>
    refine ihl.operation ht ?_ ihr right.depth_pos (by decide) (by decide) (by decide) (by decide)
    rcases ho with rfl | rfl | rfl <;> rfl
  | power _ ht right ihl ihr =>
    exact ihl.operation ht rfl ihr right.depth_pos (by decide) (by decide) (by decide) (by decide)
  | ofProduct _ ih | ofPower _ ih | ofPrimary _ ih => exact ih.lift (by decide) (by decide)
  | parens ht h hu ih => exact ih.parens h.depth_pos ht hu
  | number ht hn => exact grows_leaf (.inr ht) fun rest _ => run_leaf_number ht hn
  | name ht =>
    refine grows_leaf (.inl ht) fun rest hstop => ?_
    rw [run_leaf_ident ht, if_neg]
    · rfl
    · rintro ⟨-, hnext⟩
      -- a parenthesis is nothing that an expression ends at
      cases rest with
      | nil => cases hnext
      | cons u rest =>
        rcases hstop with hk | hk | ⟨o, b, hu, -, -⟩ <;> simp_all [Token.IsOperator]
  | input ht ha hs hu =>
    simp only [Token.isWord, Bool.and_eq_true, decide_eq_true_eq] at ht
    refine grows_leaf (.inl ht.1) fun rest _ => ?_
    rw [run_leaf_ident ht.1, if_pos ⟨ht.2, by simp [ha]⟩]
    exact run_input_of_kinds ha hs hu

end Growing

end Parser

end Reckon
