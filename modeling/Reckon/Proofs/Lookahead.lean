import Reckon.Proofs.Acceptance

/-!
# One token ahead

What a reader makes of tokens is settled by those that it reads and by the one after them. Whatever
else follows may be exchanged: the reader gives the same answer and leaves what was put there. A
refusal moreover blames the token at which the reader stopped, or the lack of one.

* `Settled p ts` says this of the answer of `p` to the tokens `ts`. It is kept by sequencing
  (`Settled.bind`) and by tokens put in front (`Settled.after`).
* The loop over operators and the one over statements count their steps by the tokens that are left,
  which is more than one token ahead. `run_operators_eq` and `run_allStatements_statement` show that
  the count makes no difference.
* `settled_program` and `settled_wholeExpression` are the results.
-/

namespace Reckon

open Grammar

/-- The rejection is due to the first of the tokens that are left, or to there being none. -/
def Rejection.Blames : Rejection → (rest : List Token) → Prop
  | .cause .endOfInput, rest => rest = []
  | .cause (.mismatch _ _ got), rest | .cause (.unexpected _ got), rest => rest.head? = some got
  | .cause .nestedTooDeeply, _ | .malformed, _ => True

namespace Parser

variable {α β : Type} {p q : Parser α} {f : α → Parser β} {n : Nat} {m : Int} {t : Token}
  {ts us vs rest : List Token}

/-- The reader `p` reads some of the tokens `ts`, and these with the first of the rest settle its
answer. -/
inductive Settled (p : Parser α) (ts : List Token) : Prop
  | ok (a : α) (ws rest : List Token) (hts : ts = ws ++ rest)
      (h : ∀ us, us.head? = rest.head? → p.run (ws ++ us) = .ok a us)
  | error (r : Rejection) (ws rest : List Token) (hts : ts = ws ++ rest) (hr : r.Blames rest)
      (h : ∀ us, us.head? = rest.head? → p.run (ws ++ us) = .error r us)

namespace Settled

/-- A reader that leaves all tokens. -/
theorem stop (a : α) (h : ∀ us, us.head? = ts.head? → p.run us = .ok a us) : Settled p ts :=
  .ok a [] ts rfl h

/-- A reader that refuses the first token. -/
theorem refuse (r : Rejection) (hr : r.Blames ts)
    (h : ∀ us, us.head? = ts.head? → p.run us = .error r us) : Settled p ts :=
  .error r [] ts rfl hr h

theorem refuse_cons (r : Rejection) (hr : r.Blames (t :: ts))
    (h : ∀ us, p.run (t :: us) = .error r (t :: us)) : Settled p (t :: ts) := by
  refine refuse r hr fun us hus => ?_
  obtain ⟨vs, rfl⟩ := List.head?_eq_some_iff.1 hus
  exact h vs

/-- On an empty list there is nothing to exchange. -/
theorem of_nil_error (h : p.run [] = .error (.cause .endOfInput) []) : Settled p [] := by
  refine refuse (.cause .endOfInput) rfl fun us hus => ?_
  rw [List.head?_eq_none_iff.1 hus]
  exact h

theorem of_nil_ok {a : α} (h : p.run [] = .ok a []) : Settled p [] := by
  refine stop a fun us hus => ?_
  rw [List.head?_eq_none_iff.1 hus]
  exact h

/-- A reader that agrees with `q` as long as the first token is the same. -/
theorem congr (h : Settled q ts) (hrun : ∀ us, us.head? = ts.head? → p.run us = q.run us) :
    Settled p ts := by
  have hhead {ws us rest : List Token} (hts : ts = ws ++ rest) (hus : us.head? = rest.head?) :
      (ws ++ us).head? = ts.head? := by
    rw [hts, List.head?_append, List.head?_append, hus]
  cases h with
  | ok a ws rest hts h =>
    exact .ok a ws rest hts fun us hus => (hrun _ (hhead hts hus)).trans (h us hus)
  | error r ws rest hts hr h =>
    exact .error r ws rest hts hr fun us hus => (hrun _ (hhead hts hus)).trans (h us hus)

/-- A reader that goes on as `q` after the tokens `vs`. -/
theorem after (vs : List Token) (h : Settled q ts) (hrun : ∀ us, p.run (vs ++ us) = q.run us) :
    Settled p (vs ++ ts) := by
  cases h with
  | ok a ws rest hts h =>
    refine .ok a (vs ++ ws) rest (by rw [hts, List.append_assoc]) ?_
    intro us hus
    rw [List.append_assoc, hrun, h us hus]
  | error r ws rest hts hr h =>
    refine .error r (vs ++ ws) rest (by rw [hts, List.append_assoc]) hr ?_
    intro us hus
    rw [List.append_assoc, hrun, h us hus]

theorem after_cons (h : Settled q ts) (hrun : ∀ us, p.run (t :: us) = q.run us) :
    Settled p (t :: ts) :=
  after [t] h hrun

/-- One reader after the other. -/
theorem bind (hp : Settled p ts) (hf : ∀ a rest, p.run ts = .ok a rest → Settled (f a) rest) :
    Settled (p >>= f) ts := by
  cases hp with
  | error r ws rest hts hr h =>
    exact .error r ws rest hts hr fun us hus => run_bind_of_error (h us hus)
  | ok a ws mid hts h =>
    have hmid : p.run ts = .ok a mid := by rw [hts, h mid rfl]
    -- the token after those that `p` reads is read by `f a`, or else it is left by both
    have hrun {vs us rest : List Token} (hvs : mid = vs ++ rest) (hus : us.head? = rest.head?) :
        (p >>= f).run (ws ++ vs ++ us) = (f a).run (vs ++ us) := by
      rw [List.append_assoc]
      refine run_bind_of_ok (h _ ?_)
      rw [hvs, List.head?_append, List.head?_append, hus]
    cases hf a mid hmid with
    | ok b vs rest hvs h' =>
      refine .ok b (ws ++ vs) rest (by rw [hts, hvs, List.append_assoc]) ?_
      intro us hus
      rw [hrun hvs hus, h' us hus]
    | error r vs rest hvs hr h' =>
      refine .error r (ws ++ vs) rest (by rw [hts, hvs, List.append_assoc]) hr ?_
      intro us hus
      rw [hrun hvs hus, h' us hus]

end Settled

/-! ## Single tokens -/

theorem settled_pure (a : α) (ts : List Token) : Settled (pure a : Parser α) ts :=
  .stop a fun _ _ => rfl

theorem settled_expect (kind : TokenKind) (ts : List Token) : Settled (expect kind) ts := by
  cases ts with
  | nil => exact .of_nil_error rfl
  | cons t ts =>
    by_cases ht : t.kind = kind
    · exact (settled_pure t ts).after_cons fun us => run_expect_of_kind ht
    · refine .refuse_cons (.cause (.mismatch kind none t)) rfl fun us => ?_
      rw [run_expect_cons, if_neg ht]

theorem settled_skipNewline (ts : List Token) : Settled skipNewline ts := by
  cases ts with
  | nil => exact .of_nil_ok rfl
  | cons t ts =>
    by_cases ht : t.kind = .newline
    · refine (settled_pure () ts).after_cons fun us => ?_
      rw [run_skipNewline_cons, if_pos ht]
      rfl
    · refine .stop () fun us hus => ?_
      obtain ⟨vs, rfl⟩ := List.head?_eq_some_iff.1 hus
      rw [run_skipNewline_cons, if_neg ht]

/-! ## Expressions -/

/-- The word `input` is the one place where a reader asks for the token after the one it reads, and
that token is still the first of the rest. -/
theorem settled_leaf (ts : List Token) : Settled leaf ts := by
  cases ts with
  | nil => exact .of_nil_error rfl
  | cons t ts =>
    cases hk : t.kind with
    | number =>
      by_cases hn : ∃ n, t.value = some (.int n)
      · obtain ⟨n, hn⟩ := hn
        exact (settled_pure (Expr.number t.span n) ts).after_cons fun us => run_leaf_number hk hn
      · refine .error .malformed [t] ts rfl trivial fun us _ => ?_
        exact run_leaf_malformed hk hn
    | ident =>
      by_cases hinput : t.lexeme = "input" ∧ ts.head?.map Token.kind = some .lparen
      · obtain ⟨a, ha, hlparen⟩ := Option.map_eq_some_iff.1 hinput.2
        obtain ⟨us, rfl⟩ := List.head?_eq_some_iff.1 ha
        have htail : Settled (do
            let prompt ← expect .string
            let close ← expect .rparen
            return Expr.input (t.span.join close.span) prompt.lexeme : Parser Expr) us :=
          (settled_expect _ _).bind fun _ _ _ => (settled_expect _ _).bind fun _ _ _ =>
            settled_pure _ _
        refine htail.after [t, a] fun us => ?_
        show leaf.run (t :: a :: us) = _
        rw [run_leaf_ident hk, if_pos ⟨hinput.1, by simp [hlparen]⟩, run_input,
          run_bind_of_ok (run_expect_of_kind hlparen)]
      · refine .ok (.name t.span t.lexeme) [t] ts rfl fun us hus => ?_
        show leaf.run (t :: us) = _
        rw [run_leaf_ident hk, if_neg (by rwa [hus])]
    | newline | comma | string | lparen | rparen | op =>
      refine .refuse_cons (.cause (.unexpected .operand t)) rfl fun us => ?_
      rw [leaf, run_bind_of_ok (run_current_cons t us)]
      simp only [hk]
      rfl

theorem settled_primary {inner : Parser Expr} (hinner : ∀ ts, Settled inner ts)
    (ts : List Token) : Settled (primary inner) ts := by
  cases ts with
  | nil => exact .of_nil_error rfl
  | cons t ts =>
    by_cases hopen : t.kind = .lparen
    · have htail : Settled (do let e ← inner; let _ ← expect .rparen; return e : Parser Expr) ts :=
        (hinner ts).bind fun _ _ _ => (settled_expect _ _).bind fun _ _ _ => settled_pure _ _
      exact htail.after_cons fun us => run_primary_parens hopen
    · by_cases hleaf : t.kind = .ident ∨ t.kind = .number
      · refine (settled_leaf (t :: ts)).congr fun us hus => ?_
        obtain ⟨vs, rfl⟩ := List.head?_eq_some_iff.1 hus
        exact run_primary_leaf hleaf
      · exact .refuse_cons (.cause (.unexpected .expression t)) rfl fun us =>
          run_primary_unexpected hopen (fun hk => hleaf (.inl hk)) fun hk => hleaf (.inr hk)

theorem Orderly.suffix_of_ok {a : α} (hp : Orderly p) (h : p.run ts = .ok a rest) : rest <:+ ts := by
  have hsuffix := (hp ts).suffix
  rwa [h] at hsuffix

theorem Orderly.length_le {a : α} (hp : Orderly p) (h : p.run ts = .ok a rest) :
    rest.length ≤ ts.length :=
  (hp.suffix_of_ok h).length_le

section Loop

variable {operand : Int → Parser Expr} {bound bound' : List Token} {left : Expr} {o : Operator}
  {b : Binding}

theorem run_operators_nil : (operators operand m bound left).run [] = .ok left [] :=
  run_operators_of_stops (show Stops m [] from trivial)

/-- Bounds that are large enough make no difference to the loop. -/
theorem run_operators_eq (hoperand : ∀ m, Orderly (operand m)) (h : ts.length ≤ bound.length)
    (h' : ts.length ≤ bound'.length) :
    (operators operand m bound left).run ts = (operators operand m bound' left).run ts := by
  induction bound generalizing bound' ts left with
  | nil =>
    obtain rfl : ts = [] := List.length_eq_zero_iff.1 (Nat.le_zero.1 h)
    rw [run_operators_nil, run_operators_nil]
  | cons x bound ih =>
    cases ts with
    | nil => rw [run_operators_nil, run_operators_nil]
    | cons t ts =>
      cases bound' with
      | nil => simp at h'
      | cons x' bound' =>
        rw [List.length_cons, List.length_cons] at h h'
        rcases operators_verdict m t with hstop | ⟨o, b, ht, hb, hm⟩ | ⟨r, -, hrun⟩
        · rw [run_operators_of_stops (hstop ts), run_operators_of_stops (hstop ts)]
        · rw [run_operators_operator ht hb hm, run_operators_operator ht hb hm]
          cases hright : (operand b.right).run ts with
          | error r rest => rw [run_bind_of_error hright, run_bind_of_error hright]
          | ok right rest =>
            have hle := (hoperand b.right).length_le hright
            rw [run_bind_of_ok hright, run_bind_of_ok hright]
            exact ih (by omega) (by omega)
        · rw [hrun, hrun]

/-- The loop over all operators that are left. -/
def allOperators (operand : Int → Parser Expr) (minimum : Int) (left : Expr) : Parser Expr := do
  operators operand minimum (← get) left

theorem run_allOperators_of_stops (h : Stops m ts) :
    (allOperators operand m left).run ts = .ok left ts :=
  run_operators_of_stops h

theorem run_allOperators_operator (hoperand : ∀ m, Orderly (operand m)) (ht : t.IsOperator o)
    (hb : o.binding? = some b) (hm : m ≤ b.left) :
    (allOperators operand m left).run (t :: ts) =
      (operand b.right >>= fun right => allOperators operand m (left.join o right)).run ts := by
  show (operators operand m (t :: ts) left).run (t :: ts) = _
  rw [run_operators_operator ht hb hm]
  cases hright : (operand b.right).run ts with
  | error r rest => rw [run_bind_of_error hright, run_bind_of_error hright]
  | ok right rest =>
    rw [run_bind_of_ok hright, run_bind_of_ok hright]
    exact run_operators_eq hoperand ((hoperand b.right).length_le hright) (Nat.le_refl _)

theorem settled_allOperators (hoperand : ∀ m, Orderly (operand m))
    (hsettled : ∀ m ts, Settled (operand m) ts) (left : Expr) (ts : List Token) :
    Settled (allOperators operand m left) ts := by
  induction hlen : ts.length using Nat.strongRecOn generalizing ts left with
  | _ len ih =>
    cases ts with
    | nil => exact .of_nil_ok rfl
    | cons t ts =>
      rcases operators_verdict m t with hstop | ⟨o, b, ht, hb, hm⟩ | ⟨r, hr, hrun⟩
      · refine .stop left fun us hus => ?_
        obtain ⟨vs, rfl⟩ := List.head?_eq_some_iff.1 hus
        exact run_allOperators_of_stops (hstop vs)
      · refine Settled.after_cons ((hsettled b.right ts).bind fun right rest hright => ?_)
          fun us => run_allOperators_operator hoperand ht hb hm
        have hle := (hoperand b.right).length_le hright
        rw [List.length_cons] at hlen
        exact ih rest.length (by omega) (left.join o right) rest rfl
      · have hblames : r.Blames (t :: ts) := by
          rcases hr with ⟨-, rfl⟩ | ⟨wanted, rfl⟩
          · trivial
          · rfl
        exact .refuse_cons r hblames fun us => hrun operand t us left us

end Loop

theorem settled_expression (n : Nat) (m : Int) (ts : List Token) :
    Settled (expression n m) ts := by
  induction n generalizing m ts with
  | zero => exact .refuse (.cause .nestedTooDeeply) trivial fun _ _ => rfl
  | succ n ih =>
    exact (settled_primary (ih 0) ts).bind fun left rest _ =>
      settled_allOperators (orderly_expression n) ih left rest

/-! ## Statements and programs -/

theorem settled_print (ht : t.isWord "print") (ts : List Token) :
    Settled (statement n) (t :: ts) := by
  have htail : Settled (do
      let _ ← expect .lparen
      let value ← expression n 0
      let close ← expect .rparen
      return .print (t.span.join close.span) value : Parser Stmt) ts :=
    (settled_expect _ _).bind fun _ _ _ => (settled_expression n 0 _).bind fun _ _ _ =>
      (settled_expect _ _).bind fun _ _ _ => settled_pure _ _
  refine htail.after_cons fun us => ?_
  rw [run_statement_print ht, run_print]

theorem settled_assignment (n : Nat) (ts : List Token) : Settled (assignment n) ts := by
  cases ts with
  | nil => exact .of_nil_error rfl
  | cons t ts =>
    by_cases ht : t.kind = .ident
    · cases ts with
      | nil =>
        refine .error (.cause .endOfInput) [t] [] rfl rfl fun us hus => ?_
        rw [List.head?_eq_none_iff.1 hus]
        exact run_assignment_nil ht
      | cons u ts =>
        have hvalue (make : Expr → Stmt) :
            Settled (do return make (← expression n 0) : Parser Stmt) ts :=
          (settled_expression n 0 ts).bind fun _ _ _ => settled_pure _ _
        by_cases hassign : u.IsOperator .assign
        · exact (hvalue _).after [t, u] fun us => run_assignment_assign ht hassign
        · by_cases hadd : u.IsOperator .addAssign
          · exact (hvalue _).after [t, u] fun us => run_assignment_addAssign ht hadd
          · refine .error (.cause (.unexpected .assignment u)) [t] (u :: ts) rfl rfl fun us hus => ?_
            obtain ⟨vs, rfl⟩ := List.head?_eq_some_iff.1 hus
            exact run_assignment_unexpected ht hassign hadd
    · exact .refuse_cons (.cause (.unexpected .statement t)) rfl fun us =>
        run_assignment_not_ident ht

theorem settled_statement (n : Nat) (ts : List Token) : Settled (statement n) ts := by
  cases ts with
  | nil => exact .of_nil_error rfl
  | cons t ts =>
    by_cases hpass : t.isWord "pass"
    · exact (settled_pure (Stmt.pass t.span) ts).after_cons fun us => run_statement_pass hpass
    · by_cases hprint : t.isWord "print"
      · exact settled_print hprint ts
      · refine (settled_assignment n (t :: ts)).congr fun us hus => ?_
        obtain ⟨vs, rfl⟩ := List.head?_eq_some_iff.1 hus
        exact run_statement_assignment hpass hprint

theorem settled_allStatements (n : Nat) (ts : List Token) : Settled (allStatements n) ts := by
  induction hlen : ts.length using Nat.strongRecOn generalizing ts with
  | _ len ih =>
    cases ts with
    | nil => exact .of_nil_ok rfl
    | cons t ts =>
      rw [List.length_cons] at hlen
      by_cases ht : t.kind = .newline
      · exact (ih ts.length (by omega) ts rfl).after_cons fun us => run_allStatements_newline ht
      · have hstmts : Settled (do
            let s ← statement n
            return s :: (← allStatements n) : Parser (List Stmt)) (t :: ts) := by
          refine (settled_statement n (t :: ts)).bind fun s rest hs => ?_
          have hlt := length_lt_of_run_statement hs
          rw [List.length_cons] at hlt
          exact (ih rest.length (by omega) rest rfl).bind fun _ _ _ => settled_pure _ _
        refine hstmts.congr fun us hus => ?_
        obtain ⟨vs, rfl⟩ := List.head?_eq_some_iff.1 hus
        exact run_allStatements_statement ht

/-- **A program is read one token ahead**, and a refusal blames the token it stopped at. -/
theorem settled_program (n : Nat) (ts : List Token) : Settled (program n) ts :=
  ((settled_allStatements n ts).bind fun _ _ _ => settled_pure _ _).congr fun _ _ => run_program

/-- **So is an expression that is to use up all tokens.** -/
theorem settled_wholeExpression (n : Nat) (ts : List Token) : Settled (wholeExpression n) ts := by
  refine (settled_expression n 0 ts).bind fun e mid _ => (settled_skipNewline mid).bind
    fun _ rest _ => ?_
  cases rest with
  | nil => exact .of_nil_ok rfl
  | cons t rest =>
    exact .refuse_cons (.cause (.unexpected .endOfLine t)) rfl fun us => rfl

end Parser

end Reckon
