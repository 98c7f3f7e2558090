import Reckon.Proofs.Reading

/-!
# Which tokens are programs

`Program.ofTokens_eq_ok_iff` is the fact that all else rests on: tokens are read as a program if and
only if the grammar makes a program of them that is not nested beyond the limit.

Two things stand between it and the rules for expressions. The reader of statements counts its steps,
and drops a newline after every statement as well as before: `run_allStatements_statement` does away
with both. And it never asks whether a line may go on after a statement; that an assignment ends its
line is due to where expressions end (`Stops`), and to no statement beginning with a parenthesis.

What is no program is refused by a diagnostic as long as the tokens are well formed (`Orderly`).
-/

namespace Reckon

open Grammar

namespace Parser

/-! ## Statements -/

section Statements

variable {d n : Nat} {t u : Token} {ts ws rest : List Token} {e : Expr} {s : Stmt}

/-- A sum is read where a line ends after it, or a closing parenthesis stands. -/
theorem run_expression_of_phrase (h : Phrase .sum d ws e) (hstop : Stops 0 rest) :
    Limited n d ((expression n 0).run (ws ++ rest)) (.ok e rest) :=
  (grows h).run_expression h.depth_pos (by decide) (by decide) hstop

theorem expression_sum_sound (h : (expression n 0).run ts = .ok e rest) :
    ∃ d ws, ts = ws ++ rest ∧ Phrase .sum d ws e ∧ d ≤ n ∧ Stops 0 rest := by
  obtain ⟨k, d, ws, hts, hws, -, hd, hstop⟩ := expression_sound (by decide) h
  exact ⟨d, ws, hts, hws.lift (by cases k <;> decide), hd, hstop⟩

theorem run_print :
    (print n).run (t :: ts) = (do
      let _ ← expect .lparen
      let value ← expression n 0
      let close ← expect .rparen
      return .print (t.span.join close.span) value : Parser Stmt).run ts := rfl

theorem run_assignment_not_ident (ht : t.kind ≠ .ident) :
    (assignment n).run (t :: ts) = .error (.cause (.unexpected .statement t)) (t :: ts) := by
  rw [assignment, run_bind_of_ok (run_current_cons t _)]
  simp [ht]

theorem run_assignment_nil (ht : t.kind = .ident) :
    (assignment n).run [t] = .error (.cause .endOfInput) [] := by
  rw [assignment, run_bind_of_ok (run_current_cons t _)]
  simp [ht]

theorem run_assignment_assign (ht : t.kind = .ident) (hu : u.IsOperator .assign) :
    (assignment n).run (t :: u :: ts) = (do
      let value ← expression n 0
      return .assign (t.span.join value.span) t.lexeme value : Parser Stmt).run ts := by
  rw [assignment, run_bind_of_ok (run_current_cons t _)]
  simp [ht, Token.isMatch, hu.1, hu.2]

theorem run_assignment_addAssign (ht : t.kind = .ident) (hu : u.IsOperator .addAssign) :
    (assignment n).run (t :: u :: ts) = (do
      let right ← expression n 0
      let value := Expr.join (.name u.span t.lexeme) .plus right
      return .assign (t.span.join value.span) t.lexeme value : Parser Stmt).run ts := by
  rw [assignment, run_bind_of_ok (run_current_cons t _)]
  simp [ht, Token.isMatch, hu.1, hu.2]

theorem run_assignment_unexpected (ht : t.kind = .ident) (hassign : ¬ u.IsOperator .assign)
    (hadd : ¬ u.IsOperator .addAssign) :
    (assignment n).run (t :: u :: ts) =
      .error (.cause (.unexpected .assignment u)) (u :: ts) := by
  rw [assignment, run_bind_of_ok (run_current_cons t _)]
  simp only [Token.IsOperator] at hassign hadd
  simp [ht, Token.isMatch, hassign, hadd]

theorem run_statement_pass (ht : t.isWord "pass") :
    (statement n).run (t :: ts) = .ok (.pass t.span) ts := by
  rw [statement, run_bind_of_ok (run_current_cons t _), if_pos ht]
  rfl

theorem run_statement_print (ht : t.isWord "print") :
    (statement n).run (t :: ts) = (print n).run (t :: ts) := by
  have hpass : ¬ t.isWord "pass" := by
    simp only [Token.isWord, Bool.and_eq_true, decide_eq_true_eq] at ht ⊢
    simp [ht]
  rw [statement, run_bind_of_ok (run_current_cons t _), if_neg hpass, if_pos ht]

theorem run_statement_assignment (hpass : ¬ t.isWord "pass") (hprint : ¬ t.isWord "print") :
    (statement n).run (t :: ts) = (assignment n).run (t :: ts) := by
  rw [statement, run_bind_of_ok (run_current_cons t _), if_neg hpass, if_neg hprint]

theorem print_sound (ht : t.isWord "print") (h : (print n).run (t :: ts) = .ok s rest) :
    ∃ d ws, t :: ts = ws ++ rest ∧ Simple d ws s ∧ d ≤ n := by
  rw [run_print, run_bind_eq_ok_iff] at h
  obtain ⟨a, ts₁, h₁, h⟩ := h
  obtain ⟨e, ts₂, h₂, h⟩ := run_bind_eq_ok_iff.1 h
  obtain ⟨u, ts₃, h₃, h⟩ := run_bind_eq_ok_iff.1 h
  cases h
  obtain ⟨rfl, ha⟩ := run_expect_eq_ok_iff.1 h₁
  obtain ⟨d, ws, rfl, hws, hd, -⟩ := expression_sum_sound h₂
  obtain ⟨rfl, hu⟩ := run_expect_eq_ok_iff.1 h₃
  exact ⟨d, t :: a :: (ws ++ [u]), by simp, .print ht ha hws hu, hd⟩

theorem assignment_sound (hpass : ¬ t.isWord "pass") (hprint : ¬ t.isWord "print")
    (h : (assignment n).run (t :: ts) = .ok s rest) :
    ∃ d ws, t :: ts = ws ++ rest ∧ Assignment d ws s ∧ d ≤ n ∧ Stops 0 rest := by
  by_cases ht : t.kind = .ident
  · simp only [Token.isWord, ht, decide_true, Bool.true_and, decide_eq_true_eq] at hpass hprint
    cases ts with
    | nil =>
      rw [run_assignment_nil ht] at h
      cases h
    | cons u ts =>
      by_cases hassign : u.IsOperator .assign
      · rw [run_assignment_assign ht hassign, run_bind_eq_ok_iff] at h
        obtain ⟨e, ts₁, h₁, h⟩ := h
        cases h
        obtain ⟨d, ws, rfl, hws, hd, hstop⟩ := expression_sum_sound h₁
        exact ⟨d, t :: u :: ws, rfl, .assign ht hpass hprint hassign hws, hd, hstop⟩
      · by_cases hadd : u.IsOperator .addAssign
        · rw [run_assignment_addAssign ht hadd, run_bind_eq_ok_iff] at h
          obtain ⟨e, ts₁, h₁, h⟩ := h
          cases h
          obtain ⟨d, ws, rfl, hws, hd, hstop⟩ := expression_sum_sound h₁
          exact ⟨d, t :: u :: ws, rfl, .addAssign ht hpass hprint hadd hws, hd, hstop⟩
        · rw [run_assignment_unexpected ht hassign hadd] at h
          cases h
  · rw [run_assignment_not_ident ht] at h
    cases h

/-- What is read as a statement is one, and an assignment goes on to where its value ends. -/
theorem statement_sound (h : (statement n).run ts = .ok s rest) :
    ∃ d ws, ts = ws ++ rest ∧ d ≤ n ∧ (Simple d ws s ∨ Assignment d ws s ∧ Stops 0 rest) := by
  cases ts with
  | nil => cases h
  | cons t ts =>
    by_cases hpass : t.isWord "pass"
    · rw [run_statement_pass hpass] at h
      cases h
      exact ⟨0, [t], rfl, Nat.zero_le _, .inl (.pass hpass)⟩
    · by_cases hprint : t.isWord "print"
      · rw [run_statement_print hprint] at h
        obtain ⟨d, ws, hts, hws, hd⟩ := print_sound hprint h
        exact ⟨d, ws, hts, hd, .inl hws⟩
      · rw [run_statement_assignment hpass hprint] at h
        obtain ⟨d, ws, hts, hws, hd, hstop⟩ := assignment_sound hpass hprint h
        exact ⟨d, ws, hts, hd, .inr ⟨hws, hstop⟩⟩

/-- A simple statement is read, whatever follows it. -/
theorem run_statement_of_simple (h : Simple d ws s) :
    Limited n d ((statement n).run (ws ++ rest)) (.ok s rest) := by
  cases h with
  | pass ht => exact .of_eq (run_statement_pass ht) (Nat.zero_le _)
  | @print _ ts t a u e ht ha h hu =>
    have hassoc : t :: a :: (ts ++ [u]) ++ rest = t :: a :: (ts ++ u :: rest) := by simp
    have hclose : Stops 0 (u :: rest) := .inr (.inl hu)
    have hexpect : (do
        let close ← expect .rparen
        return .print (t.span.join close.span) e : Parser Stmt).run (u :: rest) =
        .ok (.print (t.span.join u.span) e) rest := by
      rw [run_bind_of_ok (run_expect_of_kind hu)]
      rfl
    rw [hassoc, run_statement_print ht, run_print, run_bind_of_ok (run_expect_of_kind ha),
      ← hexpect]
    exact (run_expression_of_phrase h hclose).bind_ok _

/-- An assignment is read where its line ends after it. -/
theorem run_statement_of_assignment (h : Assignment d ws s) (hstop : Stops 0 rest) :
    Limited n d ((statement n).run (ws ++ rest)) (.ok s rest) := by
  cases h with
  | assign ht hpass hprint hu h =>
    rw [List.cons_append, List.cons_append, run_statement_assignment (by simp [Token.isWord, hpass])
      (by simp [Token.isWord, hprint]), run_assignment_assign ht hu]
    exact (run_expression_of_phrase h hstop).bind_ok _
  | addAssign ht hpass hprint hu h =>
    rw [List.cons_append, List.cons_append, run_statement_assignment (by simp [Token.isWord, hpass])
      (by simp [Token.isWord, hprint]), run_assignment_addAssign ht hu]
    exact (run_expression_of_phrase h hstop).bind_ok _

end Statements

/-! ## Programs -/

section Programs

variable {d n count : Nat} {t : Token} {ts us ws rest : List Token} {s : Stmt} {ss : List Stmt}

/-- All statements that are left. There are never more of them than tokens. -/
def allStatements (limit : Nat) : Parser (List Stmt) := do statements limit (← get).length

theorem run_statements_newline (ht : t.kind = .newline) :
    (statements n (count + 1)).run (t :: ts) = (statements n count).run ts := by
  rw [statements, run_bind_of_ok (run_peek? _)]
  simp only [List.head?_cons, if_pos ht]
  rfl

theorem run_statements_statement (ht : t.kind ≠ .newline) :
    (statements n (count + 1)).run (t :: ts) = (do
      let s ← statement n
      skipNewline
      return s :: (← statements n count) : Parser (List Stmt)).run (t :: ts) := by
  rw [statements, run_bind_of_ok (run_peek? _)]
  simp only [List.head?_cons, if_neg ht]

/-- A statement that is read uses up a token at least. -/
theorem length_lt_of_run_statement (h : (statement n).run ts = .ok s rest) :
    rest.length < ts.length := by
  obtain ⟨d, ws, rfl, -, hws⟩ := statement_sound h
  have hne : ws ≠ [] := by
    rcases hws with hws | ⟨hws, -⟩
    · exact hws.ne_nil
    · exact hws.ne_nil
  have hpos := List.length_pos_iff.2 hne
  rw [List.length_append]
  omega

/-- More steps than there are tokens make no difference. -/
theorem run_statements_of_le (h : ts.length ≤ count) :
    (statements n count).run ts = (allStatements n).run ts := by
  show (statements n count).run ts = (statements n ts.length).run ts
  induction count using Nat.strongRecOn generalizing ts with
  | _ count ih =>
    cases ts with
    | nil => cases count <;> rfl
    | cons t ts =>
      cases count with
      | zero => simp at h
      | succ count =>
        have hle : ts.length ≤ count := by simpa using h
        by_cases ht : t.kind = .newline
        · rw [List.length_cons, run_statements_newline ht, run_statements_newline ht]
          exact ih count (by omega) hle
        · rw [List.length_cons, run_statements_statement ht, run_statements_statement ht]
          cases hs : (statement n).run (t :: ts) with
          | error r us => rw [run_bind_of_error hs, run_bind_of_error hs]
          | ok s us =>
            have hlt : us.length ≤ ts.length := by
              have := length_lt_of_run_statement hs
              rw [List.length_cons] at this
              omega
            -- both sides go on with the same tokens, at most as many as there were
            obtain ⟨vs, hskip, hvs⟩ : ∃ vs, skipNewline.run us = .ok () vs ∧
                vs.length ≤ us.length := by
              cases us with
              | nil => exact ⟨[], rfl, Nat.le_refl _⟩
              | cons u us =>
                refine ⟨_, run_skipNewline_cons u us, ?_⟩
                split <;> simp
            rw [run_bind_of_ok hs, run_bind_of_ok hs, run_bind_of_ok hskip, run_bind_of_ok hskip,
              EStateM.run_bind, EStateM.run_bind, ih count (by omega) (by omega),
              ih ts.length (by omega) (by omega)]

theorem run_allStatements_nil : (allStatements n).run [] = .ok [] [] := rfl

theorem run_allStatements_newline (ht : t.kind = .newline) :
    (allStatements n).run (t :: ts) = (allStatements n).run ts :=
  run_statements_newline ht

/-- Statements are read one after the other. A newline after a statement is an empty line to those
that follow, and so need not be mentioned. -/
theorem run_allStatements_statement (ht : t.kind ≠ .newline) :
    (allStatements n).run (t :: ts) = (do
      let s ← statement n
      return s :: (← allStatements n) : Parser (List Stmt)).run (t :: ts) := by
  show (statements n (ts.length + 1)).run (t :: ts) = _
  rw [run_statements_statement ht]
  cases hs : (statement n).run (t :: ts) with
  | error r us => rw [run_bind_of_error hs, run_bind_of_error hs]
  | ok s us =>
    have hle : us.length ≤ ts.length := by
      have := length_lt_of_run_statement hs
      rw [List.length_cons] at this
      omega
    have hnext : (do skipNewline; statements n ts.length : Parser (List Stmt)).run us =
        (allStatements n).run us := by
      cases us with
      | nil => exact run_statements_of_le hle
      | cons u us =>
        rw [run_bind_of_ok (run_skipNewline_cons u us)]
        split
        · next hu =>
          rw [run_allStatements_newline hu]
          exact run_statements_of_le (by rw [List.length_cons] at hle; omega)
        · exact run_statements_of_le hle
    rw [run_bind_of_ok hs, run_bind_of_ok hs, ← bind_assoc, EStateM.run_bind, hnext,
      EStateM.run_bind]

/-- No statement begins with a token that is not a word. -/
theorem run_allStatements_not_ident (ht : t.kind ≠ .newline) (hident : t.kind ≠ .ident) :
    (allStatements n).run (t :: ts) = .error (.cause (.unexpected .statement t)) (t :: ts) := by
  have hword : ∀ word, ¬ t.isWord word := by simp [Token.isWord, hident]
  rw [run_allStatements_statement ht]
  refine run_bind_of_error ?_
  rw [run_statement_assignment (hword _) (hword _), run_assignment_not_ident hident]

/-- Where no operator is too weak, only a newline or a closing parenthesis ends an expression. -/
theorem Stops.kind_of_zero (h : Stops 0 (t :: ts)) : t.kind = .newline ∨ t.kind = .rparen := by
  rcases h with hk | hk | ⟨o, b, -, hb, hlt⟩
  · exact .inl hk
  · exact .inr hk
  · exact absurd hlt (by cases o <;> cases hb <;> decide)

/-- **What is read as statements is a program**, and nothing is left. -/
theorem allStatements_sound (h : (allStatements n).run ts = .ok ss rest) :
    rest = [] ∧ ∃ d, Lines d ts ss ∧ d ≤ n := by
  induction hlen : ts.length using Nat.strongRecOn generalizing ts ss with
  | _ len ih =>
    cases ts with
    | nil =>
      cases h
      exact ⟨rfl, 0, .last .empty, Nat.zero_le _⟩
    | cons t ts =>
      by_cases ht : t.kind = .newline
      · rw [run_allStatements_newline ht] at h
        obtain ⟨hrest, d, hts, hd⟩ := ih ts.length (by rw [← hlen]; simp) h rfl
        exact ⟨hrest, d, .newline ht hts, hd⟩
      · rw [run_allStatements_statement ht, run_bind_eq_ok_iff] at h
        obtain ⟨s, us, hs, h⟩ := h
        obtain ⟨ss', vs, hss, h⟩ := run_bind_eq_ok_iff.1 h
        cases h
        have hlt := length_lt_of_run_statement hs
        obtain ⟨d, ws, hts, hd, hws⟩ := statement_sound hs
        rw [hts]
        rcases hws with hws | ⟨hws, hstop⟩
        · obtain ⟨hrest, d', hus, hd'⟩ := ih us.length (by omega) hss rfl
          exact ⟨hrest, max d d', .simple hws hus, by omega⟩
        · -- an assignment ends its line, since a parenthesis begins no statement
          cases us with
          | nil =>
            cases hss
            rw [List.append_nil]
            exact ⟨rfl, d, .last (.assignment hws), hd⟩
          | cons u us =>
            rcases hstop.kind_of_zero with hu | hu
            · rw [run_allStatements_newline hu] at hss
              rw [List.length_cons] at hlt
              obtain ⟨hrest, d', hus, hd'⟩ := ih us.length (by omega) hss rfl
              exact ⟨hrest, max d d', .cons (.assignment hws) hu hus, by omega⟩
            · rw [run_allStatements_not_ident (by simp [hu]) (by simp [hu])] at hss
              cases hss

/-- A line is read, and then what follows it. -/
theorem run_allStatements_of_line (h : Grammar.Line d ws ss)
    (hend : rest = [] ∨ ∃ t us, rest = t :: us ∧ t.kind = .newline) :
    Limited n d ((allStatements n).run (ws ++ rest))
      ((do return ss ++ (← allStatements n) : Parser (List Stmt)).run rest) := by
  have hstop : Stops 0 rest := by
    rcases hend with rfl | ⟨t, us, rfl, ht⟩
    · trivial
    · exact .inl ht
  induction h with
  | empty =>
    refine .of_eq ?_ (Nat.zero_le _)
    rw [List.nil_append, EStateM.run_bind]
    cases (allStatements n).run rest <;> rfl
  | @simple d d' ts us s ss h hs ih =>
    cases ts with
    | nil => exact absurd rfl h.ne_nil
    | cons t ts =>
      have ht : t.kind ≠ .newline := h.kind_ne_newline t (by simp)
      have hrest := ih.bind fun ss => return s :: ss
      rw [bind_assoc] at hrest
      rw [List.append_assoc, List.cons_append, run_allStatements_statement ht]
      exact ((run_statement_of_simple h).bind_ok _).trans hrest
  | @assignment d ts s h =>
    cases ts with
    | nil => exact absurd rfl h.ne_nil
    | cons t ts =>
      have ht : t.kind ≠ .newline := h.kind_ne_newline t (by simp)
      rw [List.cons_append, run_allStatements_statement ht]
      exact (run_statement_of_assignment h hstop).bind_ok _

/-- **Every program is read.** -/
theorem run_allStatements_of_lines (h : Lines d ts ss) :
    Limited n d ((allStatements n).run ts) (.ok ss []) := by
  induction h with
  | @last d ts ss h =>
    have hline := run_allStatements_of_line (n := n) h (.inl rfl)
    rw [List.append_nil, run_bind_of_ok run_allStatements_nil, List.append_nil] at hline
    exact hline
  | @cons d d' ts us t ss ss' h ht hs ih =>
    have hline := run_allStatements_of_line (n := n) h (.inr ⟨t, us, rfl, ht⟩)
    have hnewline : (do return ss ++ (← allStatements n) : Parser (List Stmt)).run (t :: us) =
        (do return ss ++ (← allStatements n) : Parser (List Stmt)).run us := by
      rw [EStateM.run_bind, run_allStatements_newline ht, EStateM.run_bind]
    rw [hnewline] at hline
    exact hline.trans (ih.bind_ok _)

/-- A program has one tree and one depth. -/
theorem lines_unique {d' : Nat} {ss' : List Stmt} (h : Lines d ts ss) (h' : Lines d' ts ss') :
    ss = ss' ∧ d = d' := by
  -- a limit between two depths would both let the program pass and refuse it
  have hle : ∀ {d d' : Nat} {ss ss' : List Stmt}, Lines d ts ss → Lines d' ts ss' → d' ≤ d := by
    intro d d' ss ss' h h'
    refine Nat.not_lt.1 fun hlt => ?_
    obtain ⟨us, herr⟩ := (run_allStatements_of_lines (n := d) h').2 hlt
    rw [(run_allStatements_of_lines h).1 (Nat.le_refl d)] at herr
    cases herr
  have hd : d = d' := Nat.le_antisymm (hle h' h) (hle h h')
  have hok := (run_allStatements_of_lines h).1 (Nat.le_refl d)
  rw [(run_allStatements_of_lines h').1 (Nat.le_of_eq hd.symm)] at hok
  cases hok
  exact ⟨rfl, hd⟩

theorem run_program :
    (program n).run ts = (do return ⟨⟨← allStatements n⟩⟩ : Parser Program).run ts := by
  rw [program, block, allStatements]
  simp only [bind_assoc, pure_bind]

end Programs

/-! ## Refusals -/

section Orderly

variable {α β : Type} {p : Parser α} {f : α → Parser β} {n : Nat} {m : Int} {t : Token}
  {ts us : List Token} {r : EStateM.Result Rejection (List Token) α} {inner : Parser Expr}
  {operand : Int → Parser Expr}

/-- The tokens that a reader has left. -/
def remaining : EStateM.Result Rejection (List Token) α → List Token
  | .ok _ ts => ts
  | .error _ ts => ts

/-- An answer to the tokens `ts` by a reader that did not go back, and that finds fault with the
tokens themselves only if one of them is not well formed. -/
structure Fair (ts : List Token) (r : EStateM.Result Rejection (List Token) α) : Prop where
  suffix : remaining r <:+ ts
  cause : (∀ t ∈ ts, t.IsWellFormed) → ∀ us, r ≠ .error .malformed us

theorem Fair.ok {a : α} (h : us <:+ ts) : Fair ts (.ok a us : EStateM.Result Rejection _ α) :=
  ⟨h, fun _ us h => by cases h⟩

theorem Fair.error {c : GrammarCause} (h : us <:+ ts) :
    Fair ts (.error (.cause c) us : EStateM.Result Rejection _ α) :=
  ⟨h, fun _ us h => by cases h⟩

theorem Fair.cons (h : Fair ts r) : Fair (t :: ts) r :=
  ⟨h.suffix.trans (List.suffix_cons t ts), fun hwf => h.cause fun u hu => hwf u (.tail t hu)⟩

/-- A reader whose answers are all fair. -/
def Orderly (p : Parser α) : Prop := ∀ ts, Fair ts (p.run ts)

theorem Orderly.bind (hp : Orderly p) (hf : ∀ a, Orderly (f a)) : Orderly (p >>= f) := by
  intro ts
  have hts := hp ts
  cases h : p.run ts with
  | error r us =>
    rw [run_bind_of_error h]
    rw [h] at hts
    exact ⟨hts.suffix, fun hwf vs heq => hts.cause hwf vs (by cases heq; rfl)⟩
  | ok a us =>
    rw [run_bind_of_ok h]
    rw [h] at hts
    have hus := hf a us
    exact ⟨hus.suffix.trans hts.suffix,
      fun hwf => hus.cause fun u hu => hwf u (hts.suffix.subset hu)⟩

theorem orderly_pure (a : α) : Orderly (pure a : Parser α) := fun ts => .ok (List.suffix_refl ts)

theorem orderly_unexpected (wanted : Wanted) (t : Token) :
    Orderly (unexpected wanted t : Parser α) := fun ts => .error (List.suffix_refl ts)

theorem orderly_get : Orderly (get : Parser (List Token)) := fun ts => .ok (List.suffix_refl ts)

theorem orderly_peek? : Orderly peek? := fun ts => .ok (List.suffix_refl ts)

theorem orderly_skip : Orderly skip := fun ts => .ok (List.tail_suffix ts)

theorem orderly_current : Orderly current := by
  intro ts
  cases ts with
  | nil => exact .error (List.suffix_refl _)
  | cons t ts => exact .ok (List.suffix_refl _)

theorem orderly_expect (kind : TokenKind) : Orderly (expect kind) := by
  refine orderly_current.bind fun t => ?_
  split
  · exact orderly_skip.bind fun _ => orderly_pure t
  · exact fun ts => .error (List.suffix_refl ts)

theorem orderly_skipNewline : Orderly skipNewline := by
  intro ts
  cases ts with
  | nil => exact .ok (List.suffix_refl _)
  | cons t ts =>
    rw [run_skipNewline_cons]
    split
    · exact .ok (List.suffix_cons t ts)
    · exact .ok (List.suffix_refl _)

theorem orderly_input : Orderly input :=
  orderly_current.bind fun _ => orderly_skip.bind fun _ => (orderly_expect _).bind fun _ =>
    (orderly_expect _).bind fun _ => (orderly_expect _).bind fun _ => orderly_pure _

theorem orderly_leaf : Orderly leaf := by
  intro ts
  cases ts with
  | nil => exact .error (List.suffix_refl _)
  | cons t ts =>
    cases hk : t.kind with
    | number =>
      by_cases hn : ∃ n, t.value = some (.int n)
      · obtain ⟨n, hn⟩ := hn
        rw [run_leaf_number hk hn]
        exact .ok (List.suffix_cons t ts)
      · rw [run_leaf_malformed hk hn]
        exact ⟨List.suffix_cons t ts, fun hwf => absurd ((hwf t (.head ts)).1 hk) hn⟩
    | ident =>
      rw [run_leaf_ident hk]
      split
      · exact orderly_input _
      · exact .ok (List.suffix_cons t ts)
    | newline | comma | string | lparen | rparen | op =>
      rw [leaf, run_bind_of_ok (run_current_cons t ts)]
      simp only [hk]
      exact orderly_unexpected _ t _

theorem orderly_primary (hinner : Orderly inner) : Orderly (primary inner) := by
  refine orderly_current.bind fun t => ?_
  split
  · exact orderly_skip.bind fun _ => hinner.bind fun e => (orderly_expect _).bind fun _ =>
      orderly_pure e
  · exact orderly_leaf
  · exact orderly_leaf
  · exact orderly_unexpected _ t

theorem orderly_operators (hoperand : ∀ m, Orderly (operand m)) (bound : List Token)
    (left : Expr) : Orderly (operators operand m bound left) := by
  induction bound generalizing left with
  | nil => exact orderly_pure left
  | cons x bound ih =>
    intro ts
    cases ts with
    | nil => exact .ok (List.suffix_refl _)
    | cons t ts =>
      rcases operators_verdict m t with hstop | ⟨o, b, ht, hb, hm⟩ | ⟨r, hr, hrun⟩
      · rw [run_operators_of_stops (hstop ts)]
        exact .ok (List.suffix_refl _)
      · rw [run_operators_operator ht hb hm]
        exact ((hoperand _).bind (fun right => ih (left.join o right)) ts).cons
      · rw [hrun]
        rcases hr with ⟨hwf, rfl⟩ | ⟨wanted, rfl⟩
        · exact ⟨List.suffix_refl _, fun hall => absurd (hall t (.head ts)) hwf⟩
        · exact .error (List.suffix_refl _)

theorem orderly_expression (n : Nat) (m : Int) : Orderly (expression n m) := by
  induction n generalizing m with
  | zero => exact fun ts => .error (List.suffix_refl ts)
  | succ n ih =>
    exact (orderly_primary (ih 0)).bind fun left => orderly_get.bind fun bound =>
      orderly_operators ih bound left

theorem orderly_print (n : Nat) : Orderly (print n) :=
  orderly_current.bind fun _ => orderly_skip.bind fun _ => (orderly_expect _).bind fun _ =>
    (orderly_expression n 0).bind fun _ => (orderly_expect _).bind fun _ => orderly_pure _

theorem orderly_assignment (n : Nat) : Orderly (assignment n) := by
  intro ts
  cases ts with
  | nil => exact .error (List.suffix_refl _)
  | cons t ts =>
    by_cases ht : t.kind = .ident
    · cases ts with
      | nil =>
        rw [run_assignment_nil ht]
        exact .error List.nil_suffix
      | cons u ts =>
        by_cases hassign : u.IsOperator .assign
        · rw [run_assignment_assign ht hassign]
          exact ((orderly_expression n 0).bind (fun _ => orderly_pure _) ts).cons.cons
        · by_cases hadd : u.IsOperator .addAssign
          · rw [run_assignment_addAssign ht hadd]
            exact ((orderly_expression n 0).bind (fun _ => orderly_pure _) ts).cons.cons
          · rw [run_assignment_unexpected ht hassign hadd]
            exact .error (List.suffix_cons t _)
    · rw [run_assignment_not_ident ht]
      exact .error (List.suffix_refl _)

theorem orderly_statement (n : Nat) : Orderly (statement n) := by
  refine orderly_current.bind fun t => ?_
  split
  · exact orderly_skip.bind fun _ => orderly_pure _
  · split
    · exact orderly_print n
    · exact orderly_assignment n

theorem orderly_statements (n count : Nat) : Orderly (statements n count) := by
  induction count with
  | zero => exact orderly_pure _
  | succ count ih =>
    refine orderly_peek?.bind fun t => ?_
    cases t with
    | none => exact orderly_pure _
    | some t =>
      dsimp only
      split
      · exact orderly_skip.bind fun _ => ih
      · exact (orderly_statement n).bind fun _ => orderly_skipNewline.bind fun _ =>
          ih.bind fun _ => orderly_pure _

theorem orderly_program (n : Nat) : Orderly (program n) :=
  (orderly_get.bind fun _ => (orderly_statements n _).bind fun _ => orderly_pure _).bind
    fun _ => orderly_pure _

end Orderly

/-! ## Whole inputs -/

section OnTokens

variable {α : Type} {p : Parser α} {ts rest : List Token}

theorem onStream_of_ok {a : α} (h : p.run ts = .ok a rest) :
    p.onStream.run (.ofTokens ts) = .ok a ⟨ts, ts.length - rest.length⟩ := by
  show (match p.run ts with | .ok a rest => _ | .error r rest => _) = _
  rw [h]
  rfl

/-- A refusal blames the token at which the reader stopped. -/
theorem onStream_of_cause {c : GrammarCause} (h : p.run ts = .error (.cause c) rest) :
    p.onStream.run (.ofTokens ts) =
      .error (.diagnostic ⟨.grammar c, (⟨ts, ts.length - rest.length⟩ : TokenStream).here⟩)
        ⟨ts, ts.length - rest.length⟩ := by
  show (match p.run ts with | .ok a rest => _ | .error r rest => _) = _
  rw [h]
  rfl

theorem onStream_of_malformed (h : p.run ts = .error .malformed rest) :
    p.onStream.run (.ofTokens ts) =
      .error (.fault .malformedToken) ⟨ts, ts.length - rest.length⟩ := by
  show (match p.run ts with | .ok a rest => _ | .error r rest => _) = _
  rw [h]
  rfl

theorem onTokens_of_ok {a : α} (h : p.run ts = .ok a rest) : p.onTokens ts = .ok a := by
  rw [onTokens, onStream_of_ok h]

theorem onTokens_of_cause {c : GrammarCause} (h : p.run ts = .error (.cause c) rest) :
    p.onTokens ts =
      .error (.diagnostic ⟨.grammar c, (⟨ts, ts.length - rest.length⟩ : TokenStream).here⟩) := by
  rw [onTokens, onStream_of_cause h]

theorem onTokens_of_malformed (h : p.run ts = .error .malformed rest) :
    p.onTokens ts = .error (.fault .malformedToken) := by
  rw [onTokens, onStream_of_malformed h]

theorem onTokens_eq_ok_iff {a : α} : p.onTokens ts = .ok a ↔ ∃ rest, p.run ts = .ok a rest := by
  refine ⟨fun h => ?_, fun ⟨rest, h⟩ => onTokens_of_ok h⟩
  cases hrun : p.run ts with
  | ok b us =>
    rw [onTokens_of_ok hrun] at h
    cases h
    exact ⟨us, rfl⟩
  | error r us =>
    cases r with
    | cause c =>
      rw [onTokens_of_cause hrun] at h
      cases h
    | malformed =>
      rw [onTokens_of_malformed hrun] at h
      cases h

end OnTokens

end Parser

/-- The answer is that expressions are nested too deeply. -/
def NestedTooDeeply {α : Type} (answer : Except Error α) : Prop :=
  ∃ span, answer = .error (.diagnostic ⟨.grammar .nestedTooDeeply, span⟩)

/-- **Tokens are a program if and only if the grammar makes one of them** that is not nested beyond
the limit, and it has the tree that the grammar gives it. -/
theorem Program.ofTokens_eq_ok_iff {ts : List Token} {p : Program} {limit : Nat} :
    Program.ofTokens ts limit = .ok p ↔ ∃ d, Lines d ts p.main.statements ∧ d ≤ limit := by
  rw [Program.ofTokens, Parser.onTokens_eq_ok_iff]
  constructor
  · rintro ⟨rest, h⟩
    rw [Parser.run_program, Parser.run_bind_eq_ok_iff] at h
    obtain ⟨ss, us, hss, h⟩ := h
    cases h
    exact (Parser.allStatements_sound hss).2
  · rintro ⟨d, h, hd⟩
    refine ⟨[], ?_⟩
    rw [Parser.run_program, Parser.run_bind_of_ok ((Parser.run_allStatements_of_lines h).1 hd)]
    rfl

theorem eq_ok_of_toOption {ε α : Type} {x : Except ε α} {a : α} (h : x.toOption = some a) :
    x = .ok a := by
  cases x with
  | error e => cases h
  | ok b =>
    cases h
    rfl

theorem readTokens_of_ok {source : String} {ts : List Token} (h : tokenize source = .ok ts) :
    readTokens source = .ok ts := by
  rw [readTokens, h]
  rfl

theorem readTokens_of_error {source : String} {d : Diagnostic} (h : tokenize source = .error d) :
    readTokens source = .error (.diagnostic d) := by
  rw [readTokens, h]
  rfl

/-- A text is a program if its tokens are. -/
theorem Program.ofSource_eq_ok_iff {source : String} {p : Program} {limit : Nat} :
    Program.ofSource source limit = .ok p ↔
      ∃ ts, tokenize source = .ok ts ∧ Program.ofTokens ts limit = .ok p := by
  unfold Program.ofSource traceProgram
  cases hts : tokenize source with
  | error d =>
    rw [readTokens_of_error hts]
    simp
  | ok ts =>
    rw [readTokens_of_ok hts]
    simp only [Except.ok.injEq, exists_eq_left']
    cases Program.ofTokens ts limit <;> rfl

/-- A program that is nested beyond the limit is refused for that reason. -/
theorem Program.ofTokens_of_limit_lt {ts : List Token} {ss : List Stmt} {d limit : Nat}
    (h : Lines d ts ss) (hd : limit < d) : NestedTooDeeply (Program.ofTokens ts limit) := by
  obtain ⟨us, herr⟩ := (Parser.run_allStatements_of_lines (n := limit) h).2 hd
  have hrun : (Parser.program limit).run ts = .error (.cause .nestedTooDeeply) us := by
    rw [Parser.run_program, Parser.run_bind_of_error herr]
  exact ⟨_, Parser.onTokens_of_cause hrun⟩

/-- Well-formed tokens that are no program are refused by a diagnostic of the grammar. -/
theorem Program.ofTokens_eq_error {ts : List Token} {e : Error} {limit : Nat}
    (hwf : ∀ t ∈ ts, t.IsWellFormed) (h : Program.ofTokens ts limit = .error e) :
    ∃ c span, e = .diagnostic ⟨.grammar c, span⟩ := by
  cases hrun : (Parser.program limit).run ts with
  | ok p rest =>
    rw [Program.ofTokens, Parser.onTokens_eq_ok_iff.2 ⟨rest, hrun⟩] at h
    cases h
  | error r rest =>
    cases r with
    | malformed => exact absurd hrun ((Parser.orderly_program _ ts).cause hwf rest)
    | cause c =>
      rw [Program.ofTokens, Parser.onTokens_of_cause hrun] at h
      cases h
      exact ⟨c, _, rfl⟩

/-- **The reader accepts exactly the grammar.** Take well-formed tokens. Unless they are found to be
nested too deeply, they are read as a program if and only if they derive in the grammar, and the
statements are those that the grammar assigns to them, with the place of each; there is never more
than one way to assign them. If they are not read as a program then the answer is a diagnostic,
either of parsing or of an unexpected end. -/
theorem Program.ofTokens_iff_lines (ts : List Token) (hwf : ∀ t ∈ ts, t.IsWellFormed) :
    (¬ NestedTooDeeply (Program.ofTokens ts) →
      ∀ ss, Program.ofTokens ts = .ok ⟨⟨ss⟩⟩ ↔ ∃ d, Lines d ts ss) ∧
    (∀ d d' ss ss', Lines d ts ss → Lines d' ts ss' → ss = ss') ∧
    ∀ e, Program.ofTokens ts = .error e →
      ∃ d : Diagnostic, e = .diagnostic d ∧
        (d.report.kind = .parsing ∨ d.report.kind = .unexpectedEnd) := by
  refine ⟨fun hdeep ss => ?_, fun d d' ss ss' h h' => (Parser.lines_unique h h').1, ?_⟩
  · rw [Program.ofTokens_eq_ok_iff]
    constructor
    · rintro ⟨d, h, -⟩
      exact ⟨d, h⟩
    · rintro ⟨d, h⟩
      exact ⟨d, h, Nat.not_lt.1 fun hlt => hdeep (Program.ofTokens_of_limit_lt h hlt)⟩
  · intro e h
    obtain ⟨c, span, rfl⟩ := Program.ofTokens_eq_error hwf h
    refine ⟨_, rfl, ?_⟩
    cases c with
    | endOfInput => exact .inr rfl
    | mismatch | unexpected | nestedTooDeeply => exact .inl rfl

/-- `pass x += a ** b ** x` is one line with two statements, and powers group to the right. -/
theorem Program.ofTokens_iff_lines_addAssign :
    let word (name : String) (col : Int) : Token := ⟨.ident, name, .point ⟨1, col⟩, none⟩
    let op (o : Operator) (col : Int) : Token := ⟨.op, o.symbol, .point ⟨1, col⟩, some (.op o)⟩
    let span (first last : Int) : Span := ⟨⟨1, first⟩, ⟨1, last⟩⟩
    let ts := [word "pass" 1, word "x" 2, op .addAssign 3, word "a" 4, op .pow 5, word "b" 6,
      op .pow 7, word "x" 8]
    let power := Expr.binary (span 4 8) (.name (span 4 4) "a") .pow
      (.binary (span 6 8) (.name (span 6 6) "b") .pow (.name (span 8 8) "x"))
    let ss := [Stmt.pass (span 1 1),
      .assign (span 2 8) "x" (.binary (span 3 8) (.name (span 3 3) "x") .plus power)]
    (∀ t ∈ ts, t.IsWellFormed) ∧ Program.ofTokens ts = .ok ⟨⟨ss⟩⟩ ∧
      (∃ d, Lines d ts ss) ∧ ∀ d ss', Lines d ts ss' → ss' = ss := by
  intro word op span ts power ss
  have hwf : ∀ t ∈ ts, t.IsWellFormed := by simp [ts, word, op, Token.IsWellFormed]
  have hread : Program.ofTokens ts = .ok ⟨⟨ss⟩⟩ := by rfl
  have hdeep : ¬ NestedTooDeeply (Program.ofTokens ts) := by
    rintro ⟨span, h⟩
    rw [hread] at h
    cases h
  obtain ⟨hiff, hunique, -⟩ := Program.ofTokens_iff_lines ts hwf
  obtain ⟨d, h⟩ := (hiff hdeep ss).1 hread
  exact ⟨hwf, hread, ⟨d, h⟩, fun d' ss' h' => hunique d' d ss' ss h' h⟩

end Reckon
