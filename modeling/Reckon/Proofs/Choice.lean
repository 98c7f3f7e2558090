import Reckon.Proofs.LineByLine
import Reckon.Proofs.Stages

/-!
# Expression or statements

A line is taken for an expression first, and for statements if it is none. The order of the two
hardly matters, as there are no tokens that could be both, except for `pass` by itself.

What tells them apart is the second token. After a name, an expression goes on with an operator of
arithmetic or with the parenthesis of a request for input, and `GoesOn` says so; a statement goes on
with an operator of assignment, with the parenthesis of `print`, or with the name that begins the next
statement.

The two attempts look at the same tokens and at nothing else. So a text that is refused is refused in
every session and changes none of them: `Run.Refuses`. Once a text has been read there is no way back,
since whatever fails while it is run fails for another reason (`Error.IsOfRun`).
-/

namespace Reckon

open Grammar

/-! ## What comes after a name -/

theorem Token.isWord_iff {t : Token} {word : String} :
    t.isWord word ↔ t.kind = .ident ∧ t.lexeme = word := by
  simp [Token.isWord]

/-- A token stands for one operator at most. -/
theorem Token.IsOperator.unique {t : Token} {o o' : Operator} (h : t.IsOperator o)
    (h' : t.IsOperator o') : o = o' := by
  have hvalue : some (TokenValue.op o) = some (.op o') := h.2.symm.trans h'.2
  cases hvalue
  rfl

namespace Grammar

variable {level : Level} {d d' : Nat} {t u : Token} {ts us ws : List Token} {e : Expr}
  {o : Operator} {ss : List Stmt}

/-- If the tokens begin with a name then they go on like an expression, or not at all. -/
def GoesOn (ws : List Token) : Prop := ∀ t u ts, ws = t :: u :: ts → t.kind = .ident →
  (t.isWord "input" ∧ u.kind = .lparen) ∨ ∃ o, u.IsOperator o ∧ o.isArithmetic

theorem Phrase.ne_nil (h : Phrase level d ws e) : ws ≠ [] := by
  have hpos := Nat.lt_of_lt_of_le h.depth_pos h.depth_le_length
  exact List.length_pos_iff.1 hpos

/-- The second token is one of the left operand, unless that is a single token. -/
theorem GoesOn.operation (hne : us ≠ []) (h : GoesOn us) (ht : t.IsOperator o)
    (ho : o.isArithmetic) : GoesOn (us ++ t :: ts) := by
  intro a b rest hws ha
  cases us with
  | nil => exact absurd rfl hne
  | cons a' us =>
    cases us with
    | nil =>
      cases hws
      exact .inr ⟨o, ht, ho⟩
    | cons b' us =>
      cases hws
      exact h a b us rfl ha

theorem goesOn_of_kind (ht : t.kind ≠ .ident) : GoesOn (t :: ws) := by
  intro a b rest hws ha
  cases hws
  exact absurd ha ht

theorem goesOn_singleton (t : Token) : GoesOn [t] := by
  intro a b rest hws _
  cases hws

/-- **After a name, an expression goes on with an operator** or asks for input. -/
theorem Phrase.goesOn (h : Phrase level d ws e) : GoesOn ws := by
  induction h with
  | sum left ht ho right ihl ihr =>
    refine ihl.operation left.ne_nil ht ?_
    rcases ho with rfl | rfl <;> rfl
  | product left ht ho right ihl ihr =>
    refine ihl.operation left.ne_nil ht ?_
    rcases ho with rfl | rfl | rfl <;> rfl
  | power left ht right ihl ihr => exact ihl.operation left.ne_nil ht rfl
  | ofProduct _ ih | ofPower _ ih | ofPrimary _ ih => exact ih
  | parens ht h hu ih => exact goesOn_of_kind (by simp [ht])
  | number ht hn => exact goesOn_singleton _
  | name ht => exact goesOn_singleton _
  | input ht ha hs hu =>
    intro a b rest hws _
    cases hws
    exact .inl ⟨ht, ha⟩

/-- Every statement begins with a name. -/
theorem Line.kind_head (h : Line d (t :: ts) ss) : t.kind = .ident := by
  generalize hws : t :: ts = ws at h
  cases h with
  | empty => cases hws
  | simple h _ =>
    cases h with
    | pass ht | print ht =>
      cases hws
      exact (Token.isWord_iff.1 ht).1
  | assignment h =>
    cases h with
    | assign ht | addAssign ht =>
      cases hws
      exact ht

/-- A program without newlines is a single line. -/
theorem Lines.line (h : Lines d ws ss) (hws : ∀ t ∈ ws, t.kind ≠ .newline) : Line d ws ss := by
  cases h with
  | last h => exact h
  | cons h ht hs => exact absurd ht (hws _ (by simp))

/-- **A line that is an expression, too, is `pass` by itself.** -/
theorem Line.eq_pass (h : Line d ws ss) (hws : Phrase level d' ws e) :
    ∃ t, t.isWord "pass" ∧ ws = [t] := by
  have hgoes := hws.goesOn
  cases h with
  | empty => exact absurd rfl hws.ne_nil
  | @simple _ _ ts us s ss hs hl =>
    cases hs with
    | @pass t ht =>
      cases us with
      | nil => exact ⟨t, ht, rfl⟩
      | cons u us =>
        -- the next statement begins with a name, and no expression has two in a row
        have hu := hl.kind_head
        rcases hgoes t u us rfl (Token.isWord_iff.1 ht).1 with ⟨-, hopen⟩ | ⟨o, hop, -⟩
        · rw [hopen] at hu
          cases hu
        · rw [hop.1] at hu
          cases hu
    | print ht ha hvalue hclose =>
      rw [Token.isWord_iff] at ht
      rcases hgoes _ _ _ rfl ht.1 with ⟨hinput, -⟩ | ⟨o, hop, -⟩
      · exact absurd ((Token.isWord_iff.1 hinput).2.symm.trans ht.2) (by decide)
      · rw [hop.1] at ha
        cases ha
  | assignment h =>
    have hnot {t u : Token} {ts : List Token} {o : Operator} (hws : ws = t :: u :: ts)
        (ht : t.kind = .ident) (hu : u.IsOperator o) (ho : o.isArithmetic = false) : False := by
      rcases hgoes t u ts hws ht with ⟨-, hopen⟩ | ⟨o', hop, ho'⟩
      · rw [hu.1] at hopen
        cases hopen
      · rw [← hu.unique hop, ho] at ho'
        cases ho'
    cases h with
    | assign ht _ _ hu _ => exact (hnot rfl ht hu rfl).elim
    | addAssign ht _ _ hu _ => exact (hnot rfl ht hu rfl).elim

end Grammar

/-! ## Tokens that are both -/

/-- **Tokens are an expression if and only if they are one in the grammar** that is not nested beyond
the limit, and at most a newline follows. -/
theorem Expr.ofTokens_eq_ok_iff {ts : List Token} {e : Expr} {limit : Nat} :
    Expr.ofTokens ts limit = .ok e ↔
      ∃ d ws us, ts = ws ++ us ∧ Phrase .sum d ws e ∧ Parser.IsEnd us ∧ d ≤ limit := by
  rw [Expr.ofTokens, Parser.onTokens_eq_ok_iff]
  constructor
  · rintro ⟨rest, h⟩
    rw [Parser.wholeExpression_eq, Parser.run_bind_eq_ok_iff] at h
    obtain ⟨e', mid, he, hfinish⟩ := h
    obtain ⟨d, ws, hts, hws, hd, -⟩ := Parser.expression_sum_sound he
    by_cases hmid : Parser.IsEnd mid
    · rw [Parser.run_finish_of_isEnd hmid] at hfinish
      cases hfinish
      exact ⟨d, ws, mid, hts, hws, hmid, hd⟩
    · obtain ⟨vs, t, us, -, -, herr⟩ := Parser.run_finish_of_not_isEnd (e := e') hmid
      rw [herr] at hfinish
      cases hfinish
  · rintro ⟨d, ws, us, rfl, hws, hus, hd⟩
    refine ⟨[], ?_⟩
    rw [Parser.wholeExpression_eq,
      Parser.run_bind_of_ok ((Parser.run_expression_of_phrase hws hus.stops).1 hd)]
    exact Parser.run_finish_of_isEnd hus

/-- The tokens are the word `pass`, and a newline may follow. -/
def IsLonePass (ts : List Token) : Prop :=
  ∃ t rest, ts = t :: rest ∧ t.isWord "pass" ∧ Parser.IsEnd rest

/-- There is one way only to be an expression and a program at once. -/
theorem isLonePass_of_both {ts : List Token} {limit : Nat} {e : Expr} {p : Program}
    (he : Expr.ofTokens ts limit = .ok e) (hp : Program.ofTokens ts limit = .ok p) :
    IsLonePass ts := by
  obtain ⟨d, ws, us, rfl, hws, hus, -⟩ := Expr.ofTokens_eq_ok_iff.1 he
  obtain ⟨d', hlines, -⟩ := Program.ofTokens_eq_ok_iff.1 hp
  -- the tokens before the end are a line, whether or not the newline is there
  obtain ⟨d₁, ss, hline⟩ : ∃ d₁ ss, Grammar.Line d₁ ws ss := by
    rcases hus with rfl | ⟨t, ht, rfl⟩
    · rw [List.append_nil] at hlines
      exact ⟨d', _, hlines.line hws.kind_ne_newline⟩
    · obtain ⟨d₁, d₂, ss₁, ss₂, hline, -⟩ := hlines.cut ht hws.kind_ne_newline
      exact ⟨d₁, ss₁, hline⟩
  obtain ⟨t, ht, rfl⟩ := hline.eq_pass hws
  exact ⟨t, us, rfl, ht, hus⟩

/-- A lone `pass` is both, as long as there is room for an expression. -/
theorem isLonePass_iff {limit : Nat} (hlimit : 0 < limit) (ts : List Token) :
    ((∃ e, Expr.ofTokens ts limit = .ok e) ∧ ∃ p, Program.ofTokens ts limit = .ok p) ↔
      IsLonePass ts := by
  constructor
  · rintro ⟨⟨e, he⟩, p, hp⟩
    exact isLonePass_of_both he hp
  · rintro ⟨t, rest, rfl, ht, hrest⟩
    have hname : Phrase .sum 1 [t] (.name t.span t.lexeme) :=
      (Phrase.name (Token.isWord_iff.1 ht).1).lift (by decide)
    have hpass : Lines 0 [t] [.pass t.span] := .last (.ofSimple (.pass ht))
    have hlines : Lines 0 (t :: rest) [.pass t.span] := by
      rcases hrest with rfl | ⟨u, hu, rfl⟩
      · exact hpass
      · exact hpass.append_newline hu
    exact ⟨⟨_, Expr.ofTokens_eq_ok_iff.2 ⟨1, [t], rest, rfl, hname, hrest, hlimit⟩⟩,
      ⟨⟨_⟩⟩, Program.ofTokens_eq_ok_iff.2 ⟨0, hlines, Nat.zero_le limit⟩⟩

/-! ## Which of the two a line is -/

/-- The step fails with the diagnostic, whatever the session, and leaves the session as it is. -/
def Run.Refuses {α : Type} (x : Run α) (d : Diagnostic) : Prop :=
  ∀ s, x.run s = .error (.diagnostic d) s

/-- The tokens are those of a line that is run as an expression. -/
def IsExpressionLine (ts : List Token) (limit : Nat := nestingLimit) : Prop :=
  (∀ t ∈ ts.head?, ¬ t.isWord "pass" ∧ ¬ t.isWord "print") ∧ ∃ e, Expr.ofTokens ts limit = .ok e

section OneLine

variable {source : String} {ts : List Token} {limit : Nat}

theorem Expr.ofSource_of_tokenize (hts : tokenize source = .ok ts) :
    Expr.ofSource source limit = Expr.ofTokens ts limit := by
  rw [Expr.ofSource, readTokens_of_ok hts]
  rfl

theorem not_startsStatements {t : Token} (hpass : ¬ t.isWord "pass") (hprint : ¬ t.isWord "print") :
    startsStatements (t :: ts) = false := by
  simp [startsStatements, hpass, hprint]

theorem IsLonePass.not_isExpressionLine (h : IsLonePass ts) : ¬ IsExpressionLine ts limit := by
  obtain ⟨t, rest, rfl, ht, -⟩ := h
  rintro ⟨hhead, -⟩
  exact (hhead t rfl).1 ht

/-- There is no expression without tokens. -/
theorem IsExpressionLine.startsStatements (h : IsExpressionLine ts limit) :
    startsStatements ts = false := by
  obtain ⟨hhead, e, he⟩ := h
  cases ts with
  | nil =>
    obtain ⟨d, ws, us, hnil, hws, -⟩ := Expr.ofTokens_eq_ok_iff.1 he
    exact absurd (List.append_eq_nil_iff.1 hnil.symm).1 hws.ne_nil
  | cons t ts => exact not_startsStatements (hhead t rfl).1 (hhead t rfl).2

theorem runLine_of_expression (hts : tokenize source = .ok ts) (h : IsExpressionLine ts limit) :
    runLine source limit = some <$> evaluateSource source limit := by
  have hstarts := h.startsStatements
  obtain ⟨-, e, he⟩ := h
  have hline : Line.ofSource source limit = .ok (.expression e) := by
    rw [Line.ofSource, traceLine, readTokens_of_ok hts]
    dsimp only
    rw [hstarts, if_neg (by decide), he]
  rw [runLine, hline, evaluateSource, Expr.ofSource_of_tokenize hts, he]
  rfl

/-- What is not an expression by its tokens is read as statements. -/
theorem Line.ofSource_of_not_expression (hts : tokenize source = .ok ts)
    (h : ¬ IsExpressionLine ts limit) :
    Line.ofSource source limit = Line.statements <$> Program.ofTokens ts limit := by
  rw [Line.ofSource, traceLine, readTokens_of_ok hts]
  dsimp only
  cases hstarts : startsStatements ts with
  | true => rw [if_pos rfl]
  | false =>
    rw [if_neg (by decide)]
    have hhead : ∀ t ∈ ts.head?, ¬ t.isWord "pass" ∧ ¬ t.isWord "print" := by
      intro t ht
      rw [startsStatements, ht] at hstarts
      simpa using hstarts
    cases he : Expr.ofTokens ts limit with
    | ok e => exact absurd ⟨hhead, e, he⟩ h
    | error error =>
      obtain ⟨d, rfl, -⟩ := Expr.ofSource_eq_error ((Expr.ofSource_of_tokenize hts).trans he)
      rfl

theorem runLine_of_not_expression (hts : tokenize source = .ok ts)
    (h : ¬ IsExpressionLine ts limit) :
    runLine source limit = do runSource source limit; return none := by
  rw [runLine, Line.ofSource_of_not_expression hts h, runSource, Program.ofSource_of_tokenize hts]
  cases Program.ofTokens ts limit <;> rfl

/-- A text without tokens is refused, whatever it is read as. -/
theorem runLine_of_tokenize_error {d : Diagnostic} (h : tokenize source = .error d) :
    runLine source limit = do runSource source limit; return none := by
  have hline : Line.ofSource source limit = .error (.diagnostic d) := by
    rw [Line.ofSource, traceLine, readTokens_of_error h]
  have hprogram : Program.ofSource source limit = .error (.diagnostic d) := by
    rw [Program.ofSource_eq, readTokens_of_error h]
    rfl
  rw [runLine, hline, runSource, hprogram]
  rfl

/-- **A line is run as an expression or as a program.** -/
theorem runLine_eq (source : String) (limit : Nat) :
    runLine source limit = some <$> evaluateSource source limit ∨
      runLine source limit = do runSource source limit; return none := by
  cases hts : tokenize source with
  | error d => exact .inr (runLine_of_tokenize_error hts)
  | ok ts =>
    by_cases h : IsExpressionLine ts limit
    · exact .inl (runLine_of_expression hts h)
    · exact .inr (runLine_of_not_expression hts h)

/-- A line that is run as an expression would be refused as a program. -/
theorem IsExpressionLine.refuses (h : IsExpressionLine ts limit)
    (hts : tokenize source = .ok ts) :
    ∃ d : Diagnostic, d.report.kind = .parsing ∧ (runSource source limit).Refuses d := by
  cases hp : Program.ofTokens ts limit with
  | ok p =>
    obtain ⟨e, he⟩ := h.2
    exact absurd h (isLonePass_of_both he hp).not_isExpressionLine
  | error e =>
    obtain ⟨d, rfl, hkind⟩ := Program.ofTokens_eq_error_of_tokenize hts hp
    refine ⟨d, hkind, fun s => ?_⟩
    rw [runSource, Program.ofSource_of_tokenize hts, hp]
    rfl

end OneLine

/-- **Expressions and statements do not compete**, except for a lone `pass`: no other tokens can be
read as both. A line whose first token is neither `pass` nor `print`, and whose tokens are an
expression, is evaluated as one, with the same value or error and the same effects; as a program it
would be refused. Every other line that has tokens is run as a program, with the same error if there is
one, and gives no value. All this holds for every limit on nested expressions that admits any. -/
theorem expressions_apartFromStatements (limit : Nat) (hlimit : 0 < limit) :
    (∀ ts, ((∃ e, Expr.ofTokens ts limit = .ok e) ∧ ∃ p, Program.ofTokens ts limit = .ok p) ↔
      ∃ t rest, ts = t :: rest ∧ t.isWord "pass" ∧
        (rest = [] ∨ ∃ u : Token, u.kind = .newline ∧ rest = [u])) ∧
    ∀ source ts, tokenize source = .ok ts →
      (IsExpressionLine ts limit → runLine source limit = some <$> evaluateSource source limit ∧
        ∃ d : Diagnostic, d.report.kind = .parsing ∧ (runSource source limit).Refuses d) ∧
      (¬ IsExpressionLine ts limit →
        runLine source limit = do runSource source limit; return none) :=
  ⟨isLonePass_iff hlimit, fun _ _ hts =>
    ⟨fun h => ⟨runLine_of_expression hts h, h.refuses hts⟩, runLine_of_not_expression hts⟩⟩

/-- The words that begin statements are names where they do not begin a line: `2 ** pass` is an
expression, and `pass ** 2` is not taken for one. Only `pass` by itself could be either. -/
theorem expressions_apartFromStatements_keyword :
    let pass (col : Int) : Token := ⟨.ident, "pass", ⟨⟨1, col⟩, ⟨1, col + 3⟩⟩, none⟩
    let pow (col : Int) : Token := ⟨.op, "**", ⟨⟨1, col⟩, ⟨1, col + 1⟩⟩, some (.op .pow)⟩
    let two (col : Int) : Token := ⟨.number, "2", .point ⟨1, col⟩, some (.int 2)⟩
    let ts := [two 1, pow 3, pass 6, Lexer.lineEnd ⟨1, 10⟩]
    let us := [pass 1, pow 6, two 9, Lexer.lineEnd ⟨1, 10⟩]
    (tokenize "2 ** pass" = .ok ts ∧ IsExpressionLine ts ∧
      runLine "2 ** pass" = some <$> evaluateSource "2 ** pass" ∧
      ∃ d : Diagnostic, d.report.kind = .parsing ∧ (runSource "2 ** pass").Refuses d) ∧
    (tokenize "pass ** 2" = .ok us ∧ ¬ IsExpressionLine us ∧
      runLine "pass ** 2" = do runSource "pass ** 2"; return none) ∧
    (∃ e, Expr.ofTokens [pass 1] = .ok e) ∧ ∃ p, Program.ofTokens [pass 1] = .ok p := by
  intro pass pow two ts us
  obtain ⟨hboth, hline⟩ := expressions_apartFromStatements nestingLimit (by decide)
  have hts : tokenize "2 ** pass" = .ok ts := eq_ok_of_toOption (by decide +kernel)
  have hus : tokenize "pass ** 2" = .ok us := eq_ok_of_toOption (by decide +kernel)
  have hexpression : IsExpressionLine ts := by
    refine ⟨fun t ht => ?_, _, rfl⟩
    cases ht
    decide
  have hprogram : ¬ IsExpressionLine us := fun h => (h.1 (pass 1) rfl).1 (by decide)
  exact ⟨⟨hts, hexpression, (hline _ ts hts).1 hexpression⟩,
    ⟨hus, hprogram, (hline _ us hus).2 hprogram⟩,
    (hboth [pass 1]).2 ⟨pass 1, [], rfl, by decide, .inl rfl⟩⟩

/-! ## Texts that are refused -/

/-- A text is refused if it has no tokens, or if these are no program or no expression. -/
def DiagnosticKind.isOfReading : DiagnosticKind → Bool
  | tokenization | parsing | unexpectedEnd => true
  | interpretation | overflow => false

section Refusals

open Run (Ensures)

variable {α β : Type} {x : Run α} {d : Diagnostic} {s s' : Session}

/-- Nothing that fails while it is run is refused. -/
theorem Error.IsOfRun.isOfReading (h : Error.IsOfRun (.diagnostic d)) :
    d.report.kind.isOfReading = false := by
  rcases h.1 with hkind | hkind
  · rw [hkind]
    rfl
  · rw [hkind]
    rfl

/-- A step that fails as if a text were refused has not begun to run anything. -/
theorem Run.refuses_of_ofExcept {text : Except Error α} {f : α → Run β}
    (hf : ∀ a, text = .ok a → Ensures (fun _ => True) Error.IsOfRun (f a))
    (hd : d.report.kind.isOfReading) (h : (ofExcept text >>= f).run s = .error (.diagnostic d) s') :
    s' = s ∧ (ofExcept text >>= f).Refuses d := by
  cases text with
  | error e =>
    cases h
    exact ⟨rfl, fun _ => rfl⟩
  | ok a =>
    have hfails := hf a rfl s
    rw [show (f a).run s = .error (.diagnostic d) s' from h] at hfails
    rw [Error.IsOfRun.isOfReading hfails] at hd
    cases hd

/-- Giving the result another form makes no difference to a refusal. -/
theorem Run.Refuses.bind_pure (h : x.Refuses d) (g : α → β) :
    (x >>= fun a => pure (g a)).Refuses d := by
  intro s
  rw [EStateM.run_bind, h s]

theorem Run.error_of_bind_pure {g : α → β} {e : Error}
    (h : (x >>= fun a => pure (g a)).run s = .error e s') : x.run s = .error e s' := by
  rw [EStateM.run_bind] at h
  cases hx : x.run s with
  | ok a s₁ =>
    rw [hx] at h
    cases h
  | error e' s₁ =>
    rw [hx] at h
    cases h
    rfl

theorem runSource_refuses {source : String} (hd : d.report.kind.isOfReading)
    (h : (runSource source).run s = .error (.diagnostic d) s') :
    s' = s ∧ (runSource source).Refuses d :=
  Run.refuses_of_ofExcept (fun _ hp => Stmts.run_isOfRun (Program.ofSource_isProper hp)) hd h

theorem evaluateSource_refuses {source : String} (hd : d.report.kind.isOfReading)
    (h : (evaluateSource source).run s = .error (.diagnostic d) s') :
    s' = s ∧ (evaluateSource source).Refuses d :=
  Run.refuses_of_ofExcept (fun _ he => Expr.evaluate_isOfRun (Expr.ofSource_isProper he)) hd h

/-- A line is refused only once both attempts at it have failed. -/
theorem runLine_refuses {source : String} (hd : d.report.kind.isOfReading)
    (h : (runLine source).run s = .error (.diagnostic d) s') :
    s' = s ∧ (runLine source).Refuses d := by
  rcases runLine_eq source nestingLimit with hline | hline
  · rw [hline, map_eq_pure_bind] at h ⊢
    obtain ⟨hs, hrefuses⟩ := evaluateSource_refuses hd (Run.error_of_bind_pure h)
    exact ⟨hs, hrefuses.bind_pure some⟩
  · rw [hline] at h ⊢
    obtain ⟨hs, hrefuses⟩ := runSource_refuses hd (Run.error_of_bind_pure h)
    exact ⟨hs, hrefuses.bind_pure fun _ => none⟩

end Refusals

/-- **A text that is refused has no effect.** If running a text as a program, as an expression or as a
line fails with a diagnostic of tokenization, of parsing or of an unexpected end, then the variables,
the output and the input are what they were, however much of the text could have been run. The same
text is refused for the same reason in every other session. -/
theorem refusals_haveNoEffect (source : String) (s s' : Session) (d : Diagnostic)
    (hd : d.report.kind = .tokenization ∨ d.report.kind = .parsing ∨
      d.report.kind = .unexpectedEnd) :
    ((runSource source).run s = .error (.diagnostic d) s' →
      s' = s ∧ (runSource source).Refuses d) ∧
    ((evaluateSource source).run s = .error (.diagnostic d) s' →
      s' = s ∧ (evaluateSource source).Refuses d) ∧
    ((runLine source).run s = .error (.diagnostic d) s' →
      s' = s ∧ (runLine source).Refuses d) := by
  have hreading : d.report.kind.isOfReading := by
    rcases hd with hd | hd | hd <;> rw [hd] <;> rfl
  exact ⟨runSource_refuses hreading, evaluateSource_refuses hreading, runLine_refuses hreading⟩

/-- The line is no expression, and its last statement lacks a parenthesis. The statements before it
would assign, ask for a number and print. -/
theorem refusals_haveNoEffect_unclosed :
    let source := "x = input(\"?\")\nprint(x)\nprint((x)\n"
    let s := Session.start (.ofList [("x", 7)]) "5\n"
    ∃ d : Diagnostic, (d.report.kind = .tokenization ∨ d.report.kind = .parsing) ∧
      (runLine source).run s = .error (.diagnostic d) s ∧ (runLine source).Refuses d := by
  intro source s
  have hexpression : (Expr.ofSource source).isOk = false := by decide +kernel
  have hprogram : (Program.ofSource source).isOk = false := by decide +kernel
  have hline : runLine source = do runSource source; return none := by
    cases hts : tokenize source with
    | error d => exact runLine_of_tokenize_error hts
    | ok ts =>
      refine runLine_of_not_expression hts ?_
      rintro ⟨-, e, he⟩
      rw [Expr.ofSource_of_tokenize hts, he] at hexpression
      cases hexpression
  cases hfails : Program.ofSource source with
  | ok p =>
    rw [hfails] at hprogram
    cases hprogram
  | error e =>
    obtain ⟨d, rfl, hd⟩ := Program.ofSource_eq_error hfails
    have hrun : (runLine source).run s = .error (.diagnostic d) s := by
      rw [hline, runSource, hfails]
      rfl
    have hkind := hd.imp_right (Or.inl (b := d.report.kind = .unexpectedEnd))
    exact ⟨d, hd, hrun, ((refusals_haveNoEffect source s s d hkind).2.2 hrun).2⟩

end Reckon
