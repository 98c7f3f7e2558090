import Reckon.Proofs.Lookahead

/-!
# The token to blame

A refusal points at the first token with which no program can go on. There are two sides to this.

* Everything before that token is the beginning of a program. The tokens that a reader has read when
  it fails can be completed: an operand where one is missing, and a closing parenthesis for each that
  is open. `Begun` is that claim for phrases, and `expression_begun` carries it through the loop over
  operators by the invariant of `operators_sound`.
* No program begins with everything up to that token. A reader that refuses a token does so whatever
  follows (`Reckon.Proofs.Lookahead`), and programs are not refused.

Both need little of the reader, and `Reads` collects what that is, so that programs and expressions
are treated at once.
-/

namespace Reckon

open Grammar

namespace Parser

variable {α β : Type} {p : Parser α} {f : α → Parser β} {n : Nat} {m : Int} {t : Token}
  {ts us ws rest : List Token} {c : GrammarCause} {e : Expr} {level k : Level}

/-! ## Beginnings of phrases -/

theorem run_bind_eq_error_iff {r : Rejection} :
    (p >>= f).run ts = .error r us ↔
      p.run ts = .error r us ∨ ∃ a rest, p.run ts = .ok a rest ∧ (f a).run rest = .error r us := by
  rw [EStateM.run_bind]
  cases hp : p.run ts with
  | error r' rest => simp
  | ok a rest =>
    constructor
    · intro h
      exact .inr ⟨a, rest, rfl, h⟩
    · rintro (h | ⟨a', rest', hp', h⟩)
      · cases h
      · cases hp'
        exact h

theorem run_expect_eq_error {kind : TokenKind} {r : Rejection}
    (h : (expect kind).run ts = .error r rest) : rest = ts := by
  cases ts with
  | nil =>
    cases h
    rfl
  | cons t ts =>
    rw [run_expect_cons] at h
    split at h
    · cases h
    · cases h
      rfl

/-- A name, where an operand is missing. -/
def missingName : Token := ⟨.ident, "x", default, none⟩

/-- A closing parenthesis, where one is missing. -/
def missingClose : Token := ⟨.rparen, ")", default, none⟩

/-- The tokens can be completed to a phrase of the level. -/
def Begun (level : Level) (ws : List Token) : Prop := ∃ us d e, Phrase level d (ws ++ us) e

theorem Begun.nil (level : Level) : Begun level [] := by
  have h : Phrase .primary 1 [missingName] _ := .name rfl
  exact ⟨[missingName], 1, _, h.lift (by cases level <;> decide)⟩

theorem Begun.of_phrase {d : Nat} (h : Phrase level d ws e) : Begun level ws :=
  ⟨[], d, e, by rwa [List.append_nil]⟩

theorem Begun.lift (h : Begun k ws) (hk : level.binding.left ≤ k.binding.left) :
    Begun level ws := by
  obtain ⟨us, d, e, h⟩ := h
  exact ⟨us, d, e, h.lift hk⟩

/-- An open parenthesis will be closed. -/
theorem Begun.parens (ht : t.kind = .lparen) (h : Begun .sum ws) : Begun .primary (t :: ws) := by
  obtain ⟨us, d, e, h⟩ := h
  refine ⟨us ++ [missingClose], d + 1, e, ?_⟩
  have hparens := Phrase.parens ht h (u := missingClose) rfl
  rwa [List.append_assoc] at hparens

/-- A right operand will be completed. -/
theorem Begun.operation {d : Nat} {o : Operator} {l : Expr} (left : Phrase k d ws l)
    (ht : t.IsOperator o) (ho : o.binding? = some level.binding) {k' : Level} (right : Begun k' us)
    (hk : level.binding.left < k.binding.right) (hk' : level.binding.right ≤ k'.binding.left) :
    Begun level (ws ++ t :: us) := by
  obtain ⟨vs, d', r, hr⟩ := right
  refine ⟨vs, max d (d' + 1), l.join o r, ?_⟩
  rw [List.append_assoc, List.cons_append]
  exact left.operation ht ho hr hk hk'

theorem leaf_begun (h : leaf.run ts = .error (.cause c) rest) :
    ∃ ws, ts = ws ++ rest ∧ Begun .primary ws := by
  cases ts with
  | nil =>
    cases h
    exact ⟨[], rfl, .nil _⟩
  | cons t ts =>
    cases hk : t.kind with
    | number =>
      by_cases hn : ∃ n, t.value = some (.int n)
      · obtain ⟨n, hn⟩ := hn
        rw [run_leaf_number hk hn] at h
        cases h
      · rw [run_leaf_malformed hk hn] at h
        cases h
    | ident =>
      rw [run_leaf_ident hk] at h
      split at h
      · next hinput =>
        have ht : t.isWord "input" := by simp [Token.isWord, hk, hinput.1]
        -- the parenthesis is there, so what is missing is the string or the end
        obtain ⟨a, ha, hopen⟩ := Option.map_eq_some_iff.1 hinput.2
        obtain ⟨ts, rfl⟩ := List.head?_eq_some_iff.1 ha
        rw [run_input, run_bind_of_ok (run_expect_of_kind hopen), run_bind_eq_error_iff] at h
        obtain h | ⟨s, ts₁, hstring, h⟩ := h
        · obtain rfl := run_expect_eq_error h
          exact ⟨[t, a], rfl, [⟨.string, "", default, none⟩, missingClose], 1, _,
            .input ht hopen rfl rfl⟩
        · obtain ⟨rfl, hs⟩ := run_expect_eq_ok_iff.1 hstring
          obtain h | ⟨u, ts₂, -, h⟩ := run_bind_eq_error_iff.1 h
          · obtain rfl := run_expect_eq_error h
            exact ⟨[t, a, s], rfl, [missingClose], 1, _, .input ht hopen hs rfl⟩
          · cases h
      · cases h
    | newline | comma | string | lparen | rparen | op =>
      rw [leaf, run_bind_of_ok (run_current_cons t ts)] at h
      simp only [hk] at h
      cases h
      exact ⟨[], rfl, .nil _⟩

theorem primary_begun {inner : Parser Expr}
    (hsound : ∀ {ts e rest}, inner.run ts = .ok e rest →
      ∃ d ws, ts = ws ++ rest ∧ Phrase .sum d ws e)
    (hinner : ∀ {ts rest}, inner.run ts = .error (.cause c) rest →
      ∃ ws, ts = ws ++ rest ∧ Begun .sum ws)
    (h : (primary inner).run ts = .error (.cause c) rest) :
    ∃ ws, ts = ws ++ rest ∧ Begun .primary ws := by
  cases ts with
  | nil =>
    cases h
    exact ⟨[], rfl, .nil _⟩
  | cons t ts =>
    by_cases hopen : t.kind = .lparen
    · rw [run_primary_parens hopen, run_bind_eq_error_iff] at h
      obtain h | ⟨e, mid, he, h⟩ := h
      · obtain ⟨ws, rfl, hws⟩ := hinner h
        exact ⟨t :: ws, rfl, .parens hopen hws⟩
      · obtain ⟨d, ws, rfl, hws⟩ := hsound he
        obtain h | ⟨u, rest', -, h⟩ := run_bind_eq_error_iff.1 h
        · obtain rfl := run_expect_eq_error h
          exact ⟨t :: ws, rfl, .parens hopen (.of_phrase hws)⟩
        · cases h
    · by_cases hleaf : t.kind = .ident ∨ t.kind = .number
      · rw [run_primary_leaf hleaf] at h
        exact leaf_begun h
      · rw [run_primary_unexpected hopen (fun hk => hleaf (.inl hk))
          (fun hk => hleaf (.inr hk))] at h
        cases h
        exact ⟨[], rfl, .nil _⟩

/-- The loop invariant of `operators_sound`, for loops that fail. -/
theorem operators_begun {operand : Int → Parser Expr} {bound : List Token} {left : Expr}
    (hsound : ∀ {m ts e rest}, m ≤ 6 → (operand m).run ts = .ok e rest → Begins n m ts e rest)
    (hoperand : ∀ {m ts rest}, m ≤ 6 → (operand m).run ts = .error (.cause c) rest →
      ∃ level ws, ts = ws ++ rest ∧ m ≤ level.binding.left ∧ Begun level ws)
    {d : Nat} (hleft : Phrase level d ws left) (hm : m ≤ level.binding.left)
    (hnext : ∀ t us o b, ts = t :: us → t.IsOperator o → o.binding? = some b →
      b.left < level.binding.right)
    (h : (operators operand m bound left).run ts = .error (.cause c) rest) :
    ∃ level vs, ts = vs ++ rest ∧ m ≤ level.binding.left ∧ Begun level (ws ++ vs) := by
  induction bound generalizing left level d ws ts with
  | nil => cases h
  | cons x bound ih =>
    cases ts with
    | nil => cases h
    | cons t ts =>
      rcases operators_verdict m t with hstop | ⟨o, b, ht, hb, hmb⟩ | ⟨r, -, hrun⟩
      · rw [run_operators_of_stops (hstop ts)] at h
        cases h
      · obtain ⟨own, rfl, hown⟩ := exists_level hb
        have hle : own.binding.right ≤ 6 := by revert hown; cases own <;> decide
        have hlt := hnext t ts o _ rfl ht hb
        rw [run_operators_operator ht hb hmb, run_bind_eq_error_iff] at h
        obtain h | ⟨right, mid, hright, h⟩ := h
        · obtain ⟨k', vs, rfl, hk', hvs⟩ := hoperand hle h
          exact ⟨own, t :: vs, rfl, hmb, .operation hleft ht hb hvs hlt hk'⟩
        · obtain ⟨k', d', vs, rfl, hvs, hk', -, hstop⟩ := hsound hle hright
          have hjoin := hleft.operation ht hb hvs hlt hk'
          obtain ⟨k, us, rfl, hk, hus⟩ := ih hjoin hmb
            (fun t' us' o' b' hmid ht' hb' => Stops.left_lt (hmid ▸ hstop) ht' hb') h
          refine ⟨k, t :: (vs ++ us), by simp, hk, ?_⟩
          simpa using hus
      · rw [hrun] at h
        cases h
        exact ⟨level, [], rfl, hm, .of_phrase (by rwa [List.append_nil])⟩

/-- **What is read of an expression before it fails is the beginning of one.** -/
theorem expression_begun (hc : c ≠ .nestedTooDeeply) (hm : m ≤ 6)
    (h : (expression n m).run ts = .error (.cause c) rest) :
    ∃ level ws, ts = ws ++ rest ∧ m ≤ level.binding.left ∧ Begun level ws := by
  induction n generalizing m ts rest with
  | zero =>
    cases h
    exact absurd rfl hc
  | succ n ih =>
    have hsound {ts e rest} (h : (expression n 0).run ts = .ok e rest) :
        ∃ d ws, ts = ws ++ rest ∧ Phrase .sum d ws e := by
      obtain ⟨d, ws, hts, hws, -⟩ := expression_sum_sound h
      exact ⟨d, ws, hts, hws⟩
    have hinner {ts rest} (h : (expression n 0).run ts = .error (.cause c) rest) :
        ∃ ws, ts = ws ++ rest ∧ Begun .sum ws := by
      obtain ⟨k, ws, hts, -, hws⟩ := ih (by decide) h
      exact ⟨ws, hts, hws.lift (by cases k <;> decide)⟩
    rw [expression, run_bind_eq_error_iff] at h
    obtain h | ⟨left, mid, hleft, h⟩ := h
    · obtain ⟨ws, hts, hws⟩ := primary_begun hsound hinner h
      exact ⟨.primary, ws, hts, Int.le_trans hm (by decide), hws⟩
    · rw [run_bind_of_ok run_get] at h
      obtain ⟨d, ws, rfl, hws, -⟩ := primary_sound (n := n) (fun {ts e rest} hinner => by
        obtain ⟨d, ws, hts, hws, hd, -⟩ := expression_sum_sound hinner
        exact ⟨d, ws, hts, hws, hd⟩) hleft
      obtain ⟨k, vs, rfl, hk, hvs⟩ := operators_begun expression_sound ih hws
        (Int.le_trans hm (by decide)) (fun t us o b _ _ hb => by cases o <;> cases hb <;> decide) h
      exact ⟨k, ws ++ vs, by simp, hk, hvs⟩

theorem expression_begun_sum (hc : c ≠ .nestedTooDeeply)
    (h : (expression n 0).run ts = .error (.cause c) rest) :
    ∃ ws, ts = ws ++ rest ∧ Begun .sum ws := by
  obtain ⟨k, ws, hts, -, hws⟩ := expression_begun hc (by decide) h
  exact ⟨ws, hts, hws.lift (by cases k <;> decide)⟩

/-! ## Beginnings of programs -/

/-- The tokens can be completed to a line. -/
def LineBegun (ws : List Token) : Prop := ∃ us d ss, Grammar.Line d (ws ++ us) ss

theorem LineBegun.of_append {vs : List Token} (h : LineBegun (ws ++ vs)) : LineBegun ws := by
  obtain ⟨us, d, ss, h⟩ := h
  exact ⟨vs ++ us, d, ss, by rwa [List.append_assoc] at h⟩

theorem LineBegun.nil : LineBegun [] := ⟨[], 0, [], .empty⟩

/-- The parenthesis after `print` will be closed. -/
theorem LineBegun.print {a : Token} (ht : t.isWord "print") (ha : a.kind = .lparen)
    (hws : Begun .sum ws) : LineBegun (t :: a :: ws) := by
  obtain ⟨us, d, e, hsum⟩ := hws
  have hline := Grammar.Line.ofSimple (.print ht ha hsum (u := missingClose) rfl)
  rw [List.append_assoc] at hline
  exact ⟨us ++ [missingClose], d, _, hline⟩

/-- The value of an assignment will be completed. -/
theorem LineBegun.assignment {a : Token} (ht : t.kind = .ident) (hpass : ¬ t.isWord "pass")
    (hprint : ¬ t.isWord "print") (ha : a.IsOperator .assign ∨ a.IsOperator .addAssign)
    (hws : Begun .sum ws) : LineBegun (t :: a :: ws) := by
  obtain ⟨us, d, e, hsum⟩ := hws
  simp only [Token.isWord, ht, decide_true, Bool.true_and, decide_eq_true_eq] at hpass hprint
  rcases ha with ha | ha
  · exact ⟨us, d, _, .assignment (.assign ht hpass hprint ha hsum)⟩
  · exact ⟨us, d, _, .assignment (.addAssign ht hpass hprint ha hsum)⟩

theorem print_begun (hc : c ≠ .nestedTooDeeply) (ht : t.isWord "print")
    (h : (print n).run (t :: ts) = .error (.cause c) rest) :
    ∃ ws, t :: ts = ws ++ rest ∧ LineBegun ws := by
  rw [run_print, run_bind_eq_error_iff] at h
  obtain hopen | ⟨a, ts₁, ha, hvalue⟩ := h
  · obtain rfl := run_expect_eq_error hopen
    have hprint : LineBegun ([t] ++ [⟨.lparen, "(", default, none⟩]) := .print ht rfl (.nil _)
    exact ⟨[t], rfl, hprint.of_append⟩
  obtain ⟨rfl, hopen⟩ := run_expect_eq_ok_iff.1 ha
  obtain hvalue | ⟨e, ts₂, he, hclose⟩ := run_bind_eq_error_iff.1 hvalue
  · obtain ⟨ws, rfl, hws⟩ := expression_begun_sum hc hvalue
    exact ⟨t :: a :: ws, rfl, .print ht hopen hws⟩
  obtain ⟨d, ws, rfl, hws, -⟩ := expression_sum_sound he
  obtain hclose | ⟨u, ts₃, -, hpure⟩ := run_bind_eq_error_iff.1 hclose
  · obtain rfl := run_expect_eq_error hclose
    exact ⟨t :: a :: ws, rfl, .print ht hopen (.of_phrase hws)⟩
  · cases hpure

theorem assignment_begun (hc : c ≠ .nestedTooDeeply) (hpass : ¬ t.isWord "pass")
    (hprint : ¬ t.isWord "print") (h : (assignment n).run (t :: ts) = .error (.cause c) rest) :
    ∃ ws, t :: ts = ws ++ rest ∧ LineBegun ws := by
  by_cases ht : t.kind = .ident
  · have hname : LineBegun ([t] ++ [⟨.op, "=", default, some (.op .assign)⟩]) :=
      .assignment ht hpass hprint (.inl ⟨rfl, rfl⟩) (.nil _)
    cases ts with
    | nil =>
      rw [run_assignment_nil ht] at h
      cases h
      exact ⟨[t], rfl, hname.of_append⟩
    | cons u ts =>
      by_cases hu : u.IsOperator .assign ∨ u.IsOperator .addAssign
      · -- both operators go on with an expression, and nothing after it can fail
        have hvalue : (expression n 0).run ts = .error (.cause c) rest := by
          rcases hu with hassign | hadd
          · rw [run_assignment_assign ht hassign, run_bind_eq_error_iff] at h
            obtain h | ⟨e, ts₁, -, hpure⟩ := h
            · exact h
            · cases hpure
          · rw [run_assignment_addAssign ht hadd, run_bind_eq_error_iff] at h
            obtain h | ⟨e, ts₁, -, hpure⟩ := h
            · exact h
            · cases hpure
        obtain ⟨ws, rfl, hws⟩ := expression_begun_sum hc hvalue
        exact ⟨t :: u :: ws, rfl, .assignment ht hpass hprint hu hws⟩
      · rw [not_or] at hu
        rw [run_assignment_unexpected ht hu.1 hu.2] at h
        cases h
        exact ⟨[t], rfl, hname.of_append⟩
  · rw [run_assignment_not_ident ht] at h
    cases h
    exact ⟨[], rfl, .nil⟩

theorem statement_begun (hc : c ≠ .nestedTooDeeply)
    (h : (statement n).run ts = .error (.cause c) rest) :
    ∃ ws, ts = ws ++ rest ∧ LineBegun ws := by
  cases ts with
  | nil =>
    cases h
    exact ⟨[], rfl, .nil⟩
  | cons t ts =>
    by_cases hpass : t.isWord "pass"
    · rw [run_statement_pass hpass] at h
      cases h
    · by_cases hprint : t.isWord "print"
      · rw [run_statement_print hprint] at h
        exact print_begun hc hprint h
      · rw [run_statement_assignment hpass hprint] at h
        exact assignment_begun hc hpass hprint h

/-- **What is read of a program before it fails is the beginning of one.** -/
theorem allStatements_begun (hc : c ≠ .nestedTooDeeply)
    (h : (allStatements n).run ts = .error (.cause c) rest) :
    ∃ ws us d ss, ts = ws ++ rest ∧ Lines d (ws ++ us) ss := by
  induction hlen : ts.length using Nat.strongRecOn generalizing ts with
  | _ len ih =>
    cases ts with
    | nil => cases h
    | cons t ts =>
      rw [List.length_cons] at hlen
      by_cases ht : t.kind = .newline
      · rw [run_allStatements_newline ht] at h
        obtain ⟨ws, us, d, ss, hts, hlines⟩ := ih ts.length (by omega) h rfl
        exact ⟨t :: ws, us, d, ss, by rw [hts, List.cons_append], .newline ht hlines⟩
      rw [run_allStatements_statement ht, run_bind_eq_error_iff] at h
      obtain hfirst | ⟨s, mid, hs, h⟩ := h
      · obtain ⟨ws, hts, us, d, ss, hline⟩ := statement_begun hc hfirst
        exact ⟨ws, us, d, ss, hts, .last hline⟩
      obtain hothers | ⟨ss, rest', -, hpure⟩ := run_bind_eq_error_iff.1 h
      · have hlt := length_lt_of_run_statement hs
        rw [List.length_cons] at hlt
        obtain ⟨d, ws, hts, -, hws⟩ := statement_sound hs
        rcases hws with hws | ⟨hws, hstop⟩
        · obtain ⟨vs, us, d', ss, hmid, hlines⟩ := ih mid.length (by omega) hothers rfl
          refine ⟨ws ++ vs, us, max d d', s :: ss, by rw [hts, hmid, List.append_assoc], ?_⟩
          rw [List.append_assoc]
          exact .simple hws hlines
        · -- after an assignment there is a newline, or a parenthesis that is refused
          cases mid with
          | nil => cases hothers
          | cons u mid =>
            rcases hstop.kind_of_zero with hu | hu
            · rw [run_allStatements_newline hu] at hothers
              rw [List.length_cons] at hlt
              obtain ⟨vs, us, d', ss, hmid, hlines⟩ := ih mid.length (by omega) hothers rfl
              refine ⟨ws ++ u :: vs, us, max d d', [s] ++ ss, by rw [hts, hmid]; simp, ?_⟩
              rw [List.append_assoc, List.cons_append]
              exact .cons (.assignment hws) hu hlines
            · rw [run_allStatements_not_ident (by simp [hu]) (by simp [hu])] at hothers
              cases hothers
              exact ⟨ws, [], d, [s], hts, by rw [List.append_nil]; exact .last (.assignment hws)⟩
      · cases hpure

/-! ## Expressions that use up all tokens -/

/-- There is nothing more, or one newline. -/
def IsEnd (ts : List Token) : Prop := ts = [] ∨ ∃ t, t.kind = .newline ∧ ts = [t]

/-- The tokens are an expression that is nested `d` deep, and a newline may follow. -/
def IsWhole (d : Nat) (ts : List Token) : Prop :=
  ∃ ws us e, ts = ws ++ us ∧ Phrase .sum d ws e ∧ IsEnd us

theorem IsEnd.stops (h : IsEnd ts) : Stops 0 ts := by
  rcases h with rfl | ⟨t, ht, rfl⟩
  · trivial
  · exact .inl ht

/-- What is done after the expression has been read. -/
def finish (e : Expr) : Parser Expr := do
  skipNewline
  match ← peek? with
  | none => return e
  | some t => unexpected .endOfLine t

theorem run_finish_of_isEnd (h : IsEnd ts) : (finish e).run ts = .ok e [] := by
  rcases h with rfl | ⟨t, ht, rfl⟩
  · rfl
  · rw [finish, run_bind_of_ok (run_skipNewline_cons t []), if_pos ht]
    rfl

/-- If it is not the end then the token is to blame with which it goes on. -/
theorem run_finish_of_not_isEnd (h : ¬ IsEnd ts) :
    ∃ ws t us, ts = ws ++ t :: us ∧ IsEnd ws ∧
      (finish e).run ts = .error (.cause (.unexpected .endOfLine t)) (t :: us) := by
  cases ts with
  | nil => exact absurd (.inl rfl) h
  | cons t ts =>
    rw [finish, run_bind_of_ok (run_skipNewline_cons t ts)]
    by_cases ht : t.kind = .newline
    · rw [if_pos ht]
      cases ts with
      | nil => exact absurd (.inr ⟨t, ht, rfl⟩) h
      | cons u ts => exact ⟨[t], u, ts, rfl, .inr ⟨t, ht, rfl⟩, rfl⟩
    · rw [if_neg ht]
      exact ⟨[], t, ts, rfl, .inl rfl, rfl⟩

theorem wholeExpression_eq (n : Nat) : wholeExpression n = expression n 0 >>= finish := rfl

theorem wholeExpression_sound (h : (wholeExpression n).run ts = .ok e rest) :
    ∃ d, IsWhole d ts := by
  rw [wholeExpression_eq, run_bind_eq_ok_iff] at h
  obtain ⟨e', mid, he, h⟩ := h
  obtain ⟨d, ws, rfl, hws, -⟩ := expression_sum_sound he
  by_cases hend : IsEnd mid
  · exact ⟨d, ws, mid, e', rfl, hws, hend⟩
  · obtain ⟨vs, t, us, -, -, herr⟩ := run_finish_of_not_isEnd (e := e') hend
    rw [herr] at h
    cases h

theorem run_wholeExpression_of_isWhole {d : Nat} (h : IsWhole d ts) :
    ∃ e, Limited n d ((wholeExpression n).run ts) (.ok e []) := by
  obtain ⟨ws, us, e, rfl, hws, hus⟩ := h
  refine ⟨e, ?_⟩
  rw [← run_finish_of_isEnd (e := e) hus]
  exact (run_expression_of_phrase hws hus.stops).bind_ok finish

theorem wholeExpression_begun (hc : c ≠ .nestedTooDeeply)
    (h : (wholeExpression n).run ts = .error (.cause c) rest) :
    ∃ ws us d, ts = ws ++ rest ∧ IsWhole d (ws ++ us) := by
  rw [wholeExpression_eq, run_bind_eq_error_iff] at h
  obtain h | ⟨e, mid, he, h⟩ := h
  · obtain ⟨ws, hts, us, d, e, hsum⟩ := expression_begun_sum hc h
    exact ⟨ws, us, d, hts, ws ++ us, [], e, (List.append_nil _).symm, hsum, .inl rfl⟩
  · obtain ⟨d, ws, rfl, hws, -⟩ := expression_sum_sound he
    by_cases hend : IsEnd mid
    · rw [run_finish_of_isEnd hend] at h
      cases h
    · obtain ⟨vs, t, us, rfl, hvs, herr⟩ := run_finish_of_not_isEnd (e := e) hend
      rw [herr] at h
      cases h
      refine ⟨ws ++ vs, [], d, by rw [List.append_assoc], ws, vs, e, ?_, hws, hvs⟩
      rw [List.append_nil]

/-! ## Where readers point -/

/-- The reader accepts the tokens, the limit on nested expressions set aside. -/
def Accepts (reader : Nat → Parser α) (ts : List Token) : Prop :=
  ∃ limit a, (reader limit).onTokens ts = .ok a

/-- The reader reads the tokens that `L d` holds of, unless the depth `d` is beyond its limit, and no
others. What it reads before it fails can be completed to such tokens. -/
structure Reads (reader : Nat → Parser α) (L : Nat → List Token → Prop) : Prop where
  settled (n : Nat) (ts : List Token) : Settled (reader n) ts
  sound {n : Nat} {ts rest : List Token} {a : α} (h : (reader n).run ts = .ok a rest) : ∃ d, L d ts
  complete {n d : Nat} {ts : List Token} (h : L d ts) :
    ∃ a, Limited n d ((reader n).run ts) (.ok a [])
  begun {n : Nat} {ts rest : List Token} {c : GrammarCause} (hc : c ≠ .nestedTooDeeply)
    (h : (reader n).run ts = .error (.cause c) rest) : ∃ ws us d, ts = ws ++ rest ∧ L d (ws ++ us)

theorem reads_program : Reads program fun d ts => ∃ ss, Lines d ts ss where
  settled := settled_program
  sound h := by
    rw [run_program, run_bind_eq_ok_iff] at h
    obtain ⟨ss, rest, hss, -⟩ := h
    obtain ⟨-, d, hlines, -⟩ := allStatements_sound hss
    exact ⟨d, ss, hlines⟩
  complete {n d ts} h := by
    obtain ⟨ss, h⟩ := h
    refine ⟨⟨⟨ss⟩⟩, ?_⟩
    rw [run_program]
    exact (run_allStatements_of_lines h).bind_ok _
  begun {n ts rest c} hc h := by
    rw [run_program, run_bind_eq_error_iff] at h
    obtain h | ⟨ss, mid, -, hpure⟩ := h
    · obtain ⟨ws, us, d, ss, hts, hlines⟩ := allStatements_begun hc h
      exact ⟨ws, us, d, hts, ss, hlines⟩
    · cases hpure

theorem reads_wholeExpression : Reads wholeExpression IsWhole where
  settled := settled_wholeExpression
  sound := wholeExpression_sound
  complete := run_wholeExpression_of_isWhole
  begun := wholeExpression_begun

namespace Reads

variable {reader : Nat → Parser α} {L : Nat → List Token → Prop}

theorem accepts_iff (hreads : Reads reader L) : Accepts reader ts ↔ ∃ d, L d ts := by
  constructor
  · rintro ⟨limit, a, h⟩
    obtain ⟨rest, hrun⟩ := onTokens_eq_ok_iff.1 h
    exact hreads.sound hrun
  · rintro ⟨d, h⟩
    obtain ⟨a, hrun⟩ := hreads.complete (n := d) h
    exact ⟨d, a, onTokens_of_ok (hrun.1 (Nat.le_refl d))⟩

/-- Accepted tokens are refused by no limit, unless it is too low for them. -/
theorem eq_nestedTooDeeply (hreads : Reads reader L) (hts : Accepts reader ts)
    (h : (reader n).run ts = .error (.cause c) rest) : c = .nestedTooDeeply := by
  obtain ⟨d, hd⟩ := hreads.accepts_iff.1 hts
  obtain ⟨a, hok, hdeep⟩ := hreads.complete (n := n) hd
  by_cases hle : d ≤ n
  · rw [hok hle] at h
    cases h
  · obtain ⟨us, herr⟩ := hdeep (Nat.not_le.1 hle)
    rw [herr] at h
    cases h
    rfl

end Reads

/-- What the diagnostic `d` tells about the tokens, when the reader stopped at `index`. A token that is
refused is the first with which the tokens cannot be continued to any that the reader accepts. If the
tokens end too early then they can be continued. -/
structure Pinpoints (reader : Nat → Parser α) (ts : List Token) (d : Diagnostic) (index : Nat) :
    Prop where
  refused : d.report.kind = .parsing → d.cause ≠ .grammar .nestedTooDeeply →
    ∃ got, d.cause.got? = some got ∧ ts[index]? = some got ∧ d.span = got.span ∧
      (∃ us, Accepts reader (ts.take index ++ us)) ∧
      ∀ us, ¬ Accepts reader (ts.take index ++ got :: us)
  ended : d.report.kind = .unexpectedEnd →
    index = ts.length ∧ d.span = .point ((ts.getLast?.map fun t => t.span.stop).getD ⟨1, 1⟩) ∧
      ¬ Accepts reader ts ∧ ∃ us, us ≠ [] ∧ Accepts reader (ts ++ us)

theorem here_append (ws us : List Token) (t : Token) :
    (⟨ws ++ t :: us, ws.length⟩ : TokenStream).here = t.span := by
  simp [TokenStream.here, TokenStream.current?]

theorem here_length (ts : List Token) :
    (⟨ts, ts.length⟩ : TokenStream).here =
      .point ((ts.getLast?.map fun t => t.span.stop).getD ⟨1, 1⟩) := by
  have hnone : (⟨ts, ts.length⟩ : TokenStream).current? = none := by
    simp [TokenStream.current?]
  rw [TokenStream.here, hnone, TokenStream.endSpan]
  cases ts.getLast? <;> rfl

/-- A diagnostic of a reader is put where the reader stopped. -/
theorem onStream_eq_diagnostic {d : Diagnostic} {s : TokenStream}
    (h : p.onStream.run (.ofTokens ts) = .error (.diagnostic d) s) :
    ∃ c rest, p.run ts = .error (.cause c) rest ∧ s = ⟨ts, ts.length - rest.length⟩ ∧
      d = ⟨.grammar c, s.here⟩ := by
  cases hrun : p.run ts with
  | ok a rest =>
    rw [onStream_of_ok hrun] at h
    cases h
  | error r rest =>
    cases r with
    | malformed =>
      rw [onStream_of_malformed hrun] at h
      cases h
    | cause c =>
      rw [onStream_of_cause hrun] at h
      cases h
      exact ⟨c, rest, rfl, rfl, rfl⟩

namespace Reads

variable {reader : Nat → Parser α} {L : Nat → List Token → Prop}

/-- What is known of a refusal: the tokens before the place where the reader stopped can be completed,
and the reader fails in the same way on all tokens that go on with the same token. -/
theorem of_error (hreads : Reads reader L) (hc : c ≠ .nestedTooDeeply)
    (h : (reader n).run ts = .error (.cause c) rest) :
    ∃ ws, ts = ws ++ rest ∧ (Rejection.cause c).Blames rest ∧ (∃ us, Accepts reader (ws ++ us)) ∧
      ∀ us, us.head? = rest.head? → ¬ Accepts reader (ws ++ us) := by
  obtain ⟨ws, us, d, hts, hd⟩ := hreads.begun hc h
  refine ⟨ws, hts, ?_⟩
  cases hreads.settled n ts with
  | ok a ws' rest' hts' hrun =>
    rw [hts', hrun rest' rfl] at h
    cases h
  | error r ws' rest' hts' hr hrun =>
    rw [hts', hrun rest' rfl] at h
    cases h
    obtain rfl : ws = ws' := List.append_cancel_right (hts.symm.trans hts')
    exact ⟨hr, ⟨us, hreads.accepts_iff.2 ⟨d, hd⟩⟩, fun us hus hacc =>
      hc (hreads.eq_nestedTooDeeply hacc (hrun us hus))⟩

theorem pinpoints (hreads : Reads reader L) {d : Diagnostic} {s : TokenStream}
    (h : (reader n).onStream.run (.ofTokens ts) = .error (.diagnostic d) s) :
    s.tokens = ts ∧ Pinpoints reader ts d s.index := by
  obtain ⟨c, rest, hrun, rfl, rfl⟩ := onStream_eq_diagnostic h
  refine ⟨rfl, ?_⟩
  by_cases hc : c = .nestedTooDeeply
  · subst hc
    exact ⟨fun _ hdeep => absurd rfl hdeep, nofun⟩
  obtain ⟨ws, rfl, hblames, hbegun, hdead⟩ := hreads.of_error hc hrun
  dsimp only
  rw [List.length_append, Nat.add_sub_cancel]
  have hrefused (got : Token) (hgot : rest.head? = some got)
      (hcause : (Cause.grammar c).got? = some got) :
      ∃ got, (Cause.grammar c).got? = some got ∧ (ws ++ rest)[ws.length]? = some got ∧
        (⟨ws ++ rest, ws.length⟩ : TokenStream).here = got.span ∧
        (∃ us, Accepts reader ((ws ++ rest).take ws.length ++ us)) ∧
        ∀ us, ¬ Accepts reader ((ws ++ rest).take ws.length ++ got :: us) := by
    obtain ⟨us, rfl⟩ := List.head?_eq_some_iff.1 hgot
    rw [List.take_left]
    exact ⟨got, hcause, by simp, here_append ws us got, hbegun, fun us => hdead (got :: us) rfl⟩
  cases c with
  | nestedTooDeeply => exact absurd rfl hc
  | mismatch kind value got => exact ⟨fun _ _ => hrefused got hblames rfl, nofun⟩
  | unexpected wanted got => exact ⟨fun _ _ => hrefused got hblames rfl, nofun⟩
  | endOfInput =>
    obtain rfl : rest = [] := hblames
    have hnot : ¬ Accepts reader ws := by
      have hws := hdead [] rfl
      rwa [List.append_nil] at hws
    obtain ⟨us, hus⟩ := hbegun
    rw [List.append_nil]
    refine ⟨nofun, fun _ => ⟨rfl, here_length ws, hnot, us, ?_, hus⟩⟩
    -- what completes the tokens is not empty, since they are not accepted as they are
    rintro rfl
    rw [List.append_nil] at hus
    exact hnot hus

end Reads

/-- **A syntax error points at the first token that cannot go on.** Read tokens as a program, or as an
expression that is to use up all of them. If a token is refused, and not for the depth of nesting, then
it is the token where the reader stopped, what stands before it is the beginning of tokens that would
have been accepted, and no such tokens begin with what stands before it and the token itself. If the
tokens end too early, then they are themselves such a beginning, and are not accepted as they are. -/
theorem diagnostics_pinpoint (ts : List Token) (d : Diagnostic) (s : TokenStream) :
    ((program nestingLimit).onStream.run (.ofTokens ts) = .error (.diagnostic d) s →
      s.tokens = ts ∧ Pinpoints program ts d s.index) ∧
    ((wholeExpression nestingLimit).onStream.run (.ofTokens ts) = .error (.diagnostic d) s →
      s.tokens = ts ∧ Pinpoints wholeExpression ts d s.index) :=
  ⟨reads_program.pinpoints, reads_wholeExpression.pinpoints⟩

/-- In `x = ( a ) )` the last parenthesis is to blame, although the expression before it is left
without complaint; `( a **` lacks an operand and is an expression so far. -/
theorem diagnostics_pinpoint_parens :
    let word (name : String) (col : Int) : Token := ⟨.ident, name, .point ⟨1, col⟩, none⟩
    let op (o : Operator) (col : Int) : Token := ⟨.op, o.symbol, .point ⟨1, col⟩, some (.op o)⟩
    let lparen (col : Int) : Token := ⟨.lparen, "(", .point ⟨1, col⟩, none⟩
    let rparen (col : Int) : Token := ⟨.rparen, ")", .point ⟨1, col⟩, none⟩
    let ts := [word "x" 1, op .assign 2, lparen 3, word "a" 4, rparen 5, rparen 6]
    let us := [lparen 1, word "a" 2, op .pow 3]
    (∃ d s, (program nestingLimit).onStream.run (.ofTokens ts) = .error (.diagnostic d) s ∧
      d.cause.got? = some (rparen 6) ∧ s.index = 5 ∧ Pinpoints program ts d s.index) ∧
    ∃ d s, (wholeExpression nestingLimit).onStream.run (.ofTokens us) = .error (.diagnostic d) s ∧
      d.report.kind = .unexpectedEnd ∧ d.span = .point ⟨1, 3⟩ ∧
      Pinpoints wholeExpression us d s.index := by
  intro word op lparen rparen ts us
  exact ⟨⟨_, _, rfl, rfl, rfl, ((diagnostics_pinpoint ts _ _).1 rfl).2⟩,
    _, _, rfl, rfl, rfl, ((diagnostics_pinpoint us _ _).2 rfl).2⟩

end Parser

end Reckon
