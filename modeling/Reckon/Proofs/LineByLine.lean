import Reckon.Proofs.Lines

/-!
# Running line by line

A program that is run one line at a time does what it does as a whole. Two things have to be known
of a line of a program. It is not taken for an expression, which is what a line is tried as first:
`Line.ofSource_of_program`. And it is a program by itself, as are the lines after it, which then
stand one row higher: `Program.ofSource_firstLine`.

A single line, be it part of a program or not, changes at most one variable, and none if it fails:
only the last statement of a line can be an assignment, and its value is known before it is assigned.
-/

namespace Reckon

open Grammar Text

/-! ## Lines of the grammar -/

namespace Grammar

variable {d : Nat} {body ts us : List Token} {t : Token} {s : Stmt} {ss : List Stmt}

theorem Line.eq_nil (h : Line d [] ss) : ss = [] := by
  generalize hts : ([] : List Token) = ts at h
  cases h with
  | empty => rfl
  | simple h _ => exact absurd (List.append_eq_nil_iff.1 hts.symm).1 h.ne_nil
  | assignment h => exact absurd hts.symm h.ne_nil

/-- Without tokens there are no statements. -/
theorem Lines.eq_nil (h : Lines d [] ss) : ss = [] := by
  generalize hts : ([] : List Token) = ts at h
  cases h with
  | last h =>
    subst hts
    exact h.eq_nil
  | cons => simp at hts

/-- A program can be cut at its first newline. -/
theorem Lines.cut (h : Lines d (body ++ t :: us) ss) (ht : t.kind = .newline)
    (hbody : ∀ u ∈ body, u.kind ≠ .newline) :
    ∃ d₁ d₂ ss₁ ss₂, Line d₁ body ss₁ ∧ Lines d₂ us ss₂ ∧ d = max d₁ d₂ ∧ ss = ss₁ ++ ss₂ := by
  generalize hts : body ++ t :: us = ts at h
  cases h with
  | last h =>
    have hmem : t ∈ ts := by simp [← hts]
    exact absurd ht (h.kind_ne_newline t hmem)
  | @cons d₁ d₂ body' us' t' ss₁ ss₂ h ht' hs =>
    -- neither of the two lines can be longer than the other, as it would contain a newline
    obtain rfl : body = body' := by
      obtain ⟨as, hbody', hus⟩ | ⟨as, hbody', hus⟩ := List.append_eq_append_iff.1 hts
      · cases as with
        | nil => rw [hbody', List.append_nil]
        | cons a as =>
          cases hus
          exact absurd ht (h.kind_ne_newline t (by simp [hbody']))
      · cases as with
        | nil => rw [hbody', List.append_nil]
        | cons a as =>
          cases hus
          exact absurd ht' (hbody t' (by simp [hbody']))
    cases List.append_cancel_left hts
    exact ⟨d₁, d₂, ss₁, ss₂, h, hs, rfl, rfl⟩

end Grammar

/-! ## Lines of programs are no expressions -/

section NoExpression

variable {t u : Token} {ts : List Token} {d : Nat} {ss : List Stmt} {limit : Nat}

/-- A limit of zero leaves room for no expression at all. -/
theorem Expr.ofTokens_zero : ∃ e, Expr.ofTokens ts 0 = .error (.diagnostic e) :=
  ⟨_, Parser.onTokens_of_cause (Parser.run_bind_of_error rfl)⟩

/-- No expression begins with a newline. -/
theorem Expr.ofTokens_newline (ht : t.kind = .newline) :
    ∃ e, Expr.ofTokens (t :: ts) limit = .error (.diagnostic e) := by
  cases limit with
  | zero => exact Expr.ofTokens_zero
  | succ limit =>
    have hrun : (Parser.wholeExpression (limit + 1)).run (t :: ts) =
        .error (.cause (.unexpected .expression t)) (t :: ts) := by
      rw [Parser.wholeExpression]
      apply Parser.run_bind_of_error
      apply Parser.run_bind_of_error
      exact Parser.run_primary_unexpected (by simp [ht]) (by simp [ht]) (by simp [ht])
    exact ⟨_, Parser.onTokens_of_cause hrun⟩

/-- No expression begins like an assignment. -/
theorem Expr.ofTokens_assignment {o : Operator} (ht : t.kind = .ident) (hu : u.IsOperator o)
    (ho : o.binding? = none) :
    ∃ e, Expr.ofTokens (t :: u :: ts) limit = .error (.diagnostic e) := by
  cases limit with
  | zero => exact Expr.ofTokens_zero
  | succ limit =>
    have hprimary (inner : Parser Expr) :
        (Parser.primary inner).run (t :: u :: ts) = .ok (.name t.span t.lexeme) (u :: ts) := by
      rw [Parser.run_primary_leaf (.inl ht), Parser.run_leaf_ident ht, if_neg (by simp [hu.1])]
    have hrun : (Parser.wholeExpression (limit + 1)).run (t :: u :: ts) =
        .error (.cause (.unexpected .arithmeticOperator u)) (u :: ts) := by
      rw [Parser.wholeExpression]
      apply Parser.run_bind_of_error
      show (Parser.primary _ >>= fun left => get >>= fun bound =>
        Parser.operators _ 0 bound left).run (t :: u :: ts) = _
      rw [Parser.run_bind_of_ok (hprimary _), Parser.run_bind_of_ok Parser.run_get,
        Parser.operators, Parser.run_bind_of_ok (Parser.run_peek? _)]
      simp only [List.head?_cons, hu.1, hu.2, ho]
      rfl
    exact ⟨_, Parser.onTokens_of_cause hrun⟩

/-- The tokens of a line of a program begin like statements, or else they are no expression. -/
theorem Grammar.Line.startsStatements_or (h : Grammar.Line d ts ss)
    (hts : ts ≠ []) (us : List Token) :
    startsStatements (ts ++ us) ∨
      ∃ e, Expr.ofTokens (ts ++ us) limit = .error (.diagnostic e) := by
  cases h with
  | empty => exact absurd rfl hts
  | simple h _ =>
    left
    cases h with
    | pass ht => simp [startsStatements, ht]
    | print ht => simp [startsStatements, ht]
  | assignment h =>
    right
    cases h with
    | assign ht _ _ hu _ | addAssign ht _ _ hu _ => exact Expr.ofTokens_assignment ht hu rfl

theorem Grammar.Lines.startsStatements_or (h : Lines d ts ss) :
    startsStatements ts ∨ ∃ e, Expr.ofTokens ts limit = .error (.diagnostic e) := by
  cases h with
  | last h =>
    by_cases hnil : ts = []
    · subst hnil
      exact .inl rfl
    · rw [← List.append_nil ts]
      exact h.startsStatements_or hnil []
  | @cons _ _ ts us t _ _ h ht _ =>
    by_cases hnil : ts = []
    · subst hnil
      exact .inr (Expr.ofTokens_newline ht)
    · exact h.startsStatements_or hnil (t :: us)

/-- **A program is never taken for an expression**, even where the text of a line is asked for. -/
theorem Line.ofSource_of_program {source : String} {p : Program}
    (h : Program.ofSource source limit = .ok p) :
    Line.ofSource source limit = .ok (.statements p) := by
  obtain ⟨ts, hts, hp⟩ := Program.ofSource_eq_ok_iff.1 h
  obtain ⟨d, hlines, -⟩ := Program.ofTokens_eq_ok_iff.1 hp
  unfold Line.ofSource traceLine
  rw [readTokens_of_ok hts]
  dsimp only
  rcases hlines.startsStatements_or with hstarts | ⟨e, he⟩
  · rw [if_pos hstarts, hp]
    rfl
  · split
    · rw [hp]
      rfl
    · rw [he, hp]
      rfl

end NoExpression

/-! ## Cutting a program after its first line -/

namespace Text

/-- What follows the first line begins one row further down. -/
theorem after_firstLine {cs : List Char} (h : afterFirstLine cs ≠ []) (l : Loc) :
    l.after (firstLine cs) = ⟨l.row + 1, 1⟩ := by
  induction cs generalizing l with
  | nil => exact absurd rfl h
  | cons c cs ih =>
    by_cases hc : c = '\n'
    · simp [firstLine, hc, Loc.next]
    · rw [afterFirstLine, if_neg hc] at h
      rw [firstLine, if_neg hc, Loc.after_cons, ih h, Loc.next, if_neg hc]

end Text

/-- The tokens of a text are those of its first line and, one row further down, those of what follows
it. -/
theorem tokenize_firstLine {cs : List Char} {ts : List Token}
    (h : tokenize (String.ofList cs) = .ok ts) :
    ∃ ts₁ ts₂, tokenize (String.ofList (firstLine cs)) = .ok ts₁ ∧
      tokenize (String.ofList (afterFirstLine cs)) = .ok ts₂ ∧
      ts = ts₁ ++ ts₂.map (Token.down 1) := by
  simp only [tokenize, String.toList_ofList] at h ⊢
  rw [Lexer.scan_eq_firstLine, Lexer.scanByLine] at h
  cases hfirst : Lexer.scan .origin false [] (firstLine cs) with
  | error e =>
    rw [hfirst] at h
    cases h
  | ok ts₁ =>
    rw [hfirst] at h
    obtain ⟨ts', hrest, rfl⟩ := Lexer.exists_of_map_eq_ok h
    by_cases hnil : afterFirstLine cs = []
    · rw [hnil, Lexer.scan_nil] at hrest ⊢
      cases hrest
      exact ⟨ts₁, [], rfl, rfl, rfl⟩
    · have hloc : Loc.origin.after (firstLine cs) = Loc.origin.down 1 := after_firstLine hnil _
      rw [hloc, Lexer.scan_down] at hrest
      cases hscan : Lexer.scan .origin false [] (afterFirstLine cs) with
      | error e =>
        rw [hscan] at hrest
        cases hrest
      | ok ts₂ =>
        rw [hscan] at hrest
        cases hrest
        exact ⟨ts₁, ts₂, rfl, rfl, rfl⟩

/-- **The first line of a program is a program, and so is the rest.** -/
theorem Program.ofSource_firstLine {cs : List Char} {p : Program} {limit : Nat}
    (h : Program.ofSource (String.ofList cs) limit = .ok p) :
    ∃ p₁ p₂, Program.ofSource (String.ofList (firstLine cs)) limit = .ok p₁ ∧
      Program.ofSource (String.ofList (afterFirstLine cs)) limit = .ok p₂ ∧
      p.main.statements = p₁.main.statements ++ p₂.main.statements.map (Stmt.down 1) := by
  obtain ⟨ts, hts, hp⟩ := Program.ofSource_eq_ok_iff.1 h
  obtain ⟨d, hlines, hd⟩ := Program.ofTokens_eq_ok_iff.1 hp
  obtain ⟨ts₁, ts₂, hts₁, hts₂, rfl⟩ := tokenize_firstLine hts
  have hshape := Lexer.scan_oneLine .origin false (afterFirstLine_firstLine cs)
    (by simpa only [tokenize, String.toList_ofList] using hts₁)
  -- the tokens of the first line end in a newline, at which the grammar can be cut
  obtain ⟨d₁, d₂, ss₁, ss₂, hlines₁, hlines₂, hmax, hss⟩ :
      ∃ d₁ d₂ ss₁ ss₂, Lines d₁ ts₁ ss₁ ∧ Lines d₂ (ts₂.map (Token.down 1)) ss₂ ∧
        d = max d₁ d₂ ∧ p.main.statements = ss₁ ++ ss₂ := by
    obtain ⟨rfl, -⟩ | ⟨body, t, rfl, ht, hbody⟩ := hshape
    · exact ⟨0, d, [], _, .last .empty, hlines, (Nat.zero_max d).symm, rfl⟩
    · rw [List.append_assoc] at hlines
      obtain ⟨d₁, d₂, ss₁, ss₂, hline, hrest, hmax, hss⟩ := hlines.cut ht hbody
      exact ⟨d₁, d₂, ss₁, ss₂, (Lines.last hline).append_newline ht, hrest, hmax, hss⟩
  -- read by itself, the rest begins at the origin again
  have hup : Lines d₂ ts₂ (ss₂.map (Stmt.down (-1))) := by
    have hdown := hlines₂.down (-1)
    rw [List.map_map] at hdown
    simpa [Function.comp_def] using hdown
  refine ⟨⟨⟨ss₁⟩⟩, ⟨⟨ss₂.map (Stmt.down (-1))⟩⟩, ?_, ?_, ?_⟩
  · exact Program.ofSource_eq_ok_iff.2 ⟨ts₁, hts₁, Program.ofTokens_eq_ok_iff.2 ⟨d₁, hlines₁, by omega⟩⟩
  · exact Program.ofSource_eq_ok_iff.2 ⟨ts₂, hts₂, Program.ofTokens_eq_ok_iff.2 ⟨d₂, hup, by omega⟩⟩
  · rw [hss, List.map_map]
    simp [Function.comp_def]

/-! ## Running the lines of a program -/

/-- The lines of a text, each with the line feed that ends it. -/
def Text.lines (cs : List Char) : List (List Char) :=
  if _ : cs = [] then [] else firstLine cs :: Text.lines (afterFirstLine cs)
termination_by cs.length
decreasing_by exact length_afterFirstLine_lt ‹_›

/-- The lines of a text, as texts of their own. -/
def linesOf (source : String) : List String := (Text.lines source.toList).map String.ofList

example : linesOf "pass\n\nx = 1" = ["pass\n", "\n", "x = 1"] := by cbv

/-- What comes of running lines one after the other. -/
structure Transcript where
  /-- The values of the lines that ran to their end, as far as these have one. -/
  replies : List (Option Int)
  /-- The error of the line that failed, if there was one. -/
  error? : Option Error
  /-- The session that was left behind. -/
  session : Session

/-- Runs lines one after the other in the same session, up to the first that fails. Each is held to
the same limit on nested expressions. -/
def runLines (limit : Nat) : List String → Session → Transcript
  | [], s => ⟨[], none, s⟩
  | line :: lines, s =>
    match (runLine line limit).run s with
    | .ok reply s' =>
      let later := runLines limit lines s'
      { later with replies := reply :: later.replies }
    | .error e s' => ⟨[], some e, s'⟩

/-- The transcript shows what came of running everything at once. The session that is left behind is
the same. There is an error in both or in none, and at once it stands further down by the number of
lines that ran before it. -/
def Transcript.Agrees (t : Transcript) : EStateM.Result Error Session Unit → Prop
  | .ok _ s => t.error? = none ∧ t.session = s
  | .error e s => t.session = s ∧ ∃ e', t.error? = some e' ∧ e = e'.down t.replies.length

section RunLines

variable {source line : String} {lines : List String} {p : Program} {s s' : Session} {e : Error}
  {limit : Nat}

theorem runSource_of_program (h : Program.ofSource source limit = .ok p) :
    runSource source limit = p.run := by
  rw [runSource, h]
  rfl

theorem runLine_of_program (h : Program.ofSource source limit = .ok p) :
    runLine source limit = (do p.run; return none) := by
  rw [runLine, Line.ofSource_of_program h]
  rfl

theorem runLines_cons_of_ok {reply : Option Int} (h : (runLine line limit).run s = .ok reply s') :
    runLines limit (line :: lines) s =
      { runLines limit lines s' with replies := reply :: (runLines limit lines s').replies } := by
  rw [runLines, h]

theorem runLines_cons_of_error (h : (runLine line limit).run s = .error e s') :
    runLines limit (line :: lines) s = ⟨[], some e, s'⟩ := by
  rw [runLines, h]

/-- The empty text is the program that does nothing. -/
theorem Program.ofSource_nil (h : Program.ofSource (String.ofList []) limit = .ok p) :
    p.main.statements = [] := by
  obtain ⟨ts, hts, hp⟩ := Program.ofSource_eq_ok_iff.1 h
  obtain ⟨d, hlines, -⟩ := Program.ofTokens_eq_ok_iff.1 hp
  rw [tokenize, String.toList_ofList, Lexer.scan_nil] at hts
  cases hts
  exact hlines.eq_nil

/-- A program does what its first part does, and then what its second part does further down. -/
theorem Program.run_append {p p₁ p₂ : Program} {n : Int}
    (h : p.main.statements = p₁.main.statements ++ p₂.main.statements.map (Stmt.down n)) :
    p.run = p₁.run >>= fun _ => p₂.run.adaptExcept (Error.down n) := by
  rw [Program.run, Block.run, h, List.forM_eq_forM, List.forM_append, ← List.forM_eq_forM,
    Stmts.run_down]
  rfl

theorem runLines_agrees {cs : List Char}
    (h : Program.ofSource (String.ofList cs) limit = .ok p) (s : Session) :
    (∀ reply ∈ (runLines limit ((Text.lines cs).map String.ofList) s).replies, reply = none) ∧
      (runLines limit ((Text.lines cs).map String.ofList) s).Agrees (p.run.run s) := by
  -- the rest of the text is a program of its own, and it starts from the session of the first line
  induction cs using Text.lines.induct generalizing p s with
  | case1 =>
    rw [Text.lines, dif_pos rfl, List.map_nil, runLines, Program.run, Block.run,
      Program.ofSource_nil h]
    exact ⟨by simp, rfl, rfl⟩
  | case2 cs hcs ih =>
    obtain ⟨p₁, p₂, hp₁, hp₂, hstatements⟩ := Program.ofSource_firstLine h
    rw [Text.lines, dif_neg hcs, List.map_cons, Program.run_append hstatements, EStateM.run_bind]
    cases hfirst : p₁.run.run s with
    | error e s' =>
      have hline : (runLine (String.ofList (firstLine cs)) limit).run s = .error e s' := by
        rw [runLine_of_program hp₁, EStateM.run_bind, hfirst]
      rw [runLines_cons_of_error hline]
      exact ⟨by simp, rfl, e, rfl, (Error.down_zero e).symm⟩
    | ok _ s' =>
      have hline : (runLine (String.ofList (firstLine cs)) limit).run s = .ok none s' := by
        rw [runLine_of_program hp₁, EStateM.run_bind, hfirst]
        rfl
      obtain ⟨hreplies, hagrees⟩ := ih hp₂ s'
      rw [runLines_cons_of_ok hline]
      refine ⟨by simpa using hreplies, ?_⟩
      cases hrest : p₂.run.run s' with
      | ok _ s'' =>
        rw [hrest] at hagrees
        dsimp only
        rw [Run.run_adaptExcept_of_ok _ hrest]
        exact hagrees
      | error e s'' =>
        rw [hrest] at hagrees
        obtain ⟨hsession, e', herror, rfl⟩ := hagrees
        dsimp only
        rw [Run.run_adaptExcept_of_error _ hrest, Error.down_down]
        refine ⟨hsession, e', herror, ?_⟩
        rw [List.length_cons, Int.natCast_add, Int.natCast_one]

/-- **A program does line by line what it does at once.** Its lines are run one after the other in one
session, until one fails. None of them gives a value. The same session is left behind as by running
the whole text: the same variables, the same output, and the same input still to be read. There is an
error in the one case if and only if there is one in the other, and it is the same but for its place,
which is the number of lines before the failing one further down in the whole text. All this holds for
every limit on nested expressions. -/
theorem runLines_agrees_runSource (limit : Nat) (source : String) (p : Program)
    (h : Program.ofSource source limit = .ok p) (s : Session) :
    (∀ reply ∈ (runLines limit (linesOf source) s).replies, reply = none) ∧
      (runLines limit (linesOf source) s).Agrees ((runSource source limit).run s) := by
  rw [runSource_of_program h]
  rw [← String.ofList_toList (s := source)] at h
  exact runLines_agrees h s

/-- The third line fails, which run by itself is the first. The comment before it is a line too. -/
theorem runLines_agrees_runSource_division :
    let source := "x = 4\n# note\nprint(x // 0)\n"
    let s := Session.start ∅ ""
    (∃ p, Program.ofSource source = .ok p) ∧
      (runLines nestingLimit (linesOf source) s).error? =
        some (.diagnostic ⟨.runtime .divisionByZero, ⟨⟨1, 7⟩, ⟨1, 12⟩⟩⟩) ∧
      (∀ reply ∈ (runLines nestingLimit (linesOf source) s).replies, reply = none) ∧
      (runLines nestingLimit (linesOf source) s).Agrees ((runSource source).run s) := by
  intro source s
  have hsome : (Program.ofSource source).toOption.isSome := by decide +kernel
  obtain ⟨p, h⟩ : ∃ p, Program.ofSource source = .ok p := by
    cases h : Program.ofSource source with
    | ok p => exact ⟨p, rfl⟩
    | error e =>
      rw [h] at hsome
      cases hsome
  exact ⟨⟨p, h⟩, by decide +kernel, runLines_agrees_runSource nestingLimit source p h s⟩

end RunLines

/-! ## What a line can change -/

/-- The step changes at most one variable, and none if it fails. -/
def Run.ChangesOneVar {α : Type} (x : Run α) : Prop :=
  ∀ s, match x.run s with
    | .ok _ s' => ∃ ident, ∀ other, other ≠ ident → s'.vars.get? other = s.vars.get? other
    | .error _ s' => s'.vars = s.vars

section ChangesOneVar

open Run (KeepsVars ChangesOneVar)

variable {α β : Type} {x : Run α} {f : α → Run β}

/-- If the first of two steps leaves the variables alone, then the second one may change one. -/
theorem Run.ChangesOneVar.bind (hx : KeepsVars x) (hf : ∀ a, ChangesOneVar (f a)) :
    ChangesOneVar (x >>= f) := by
  intro s
  have hvars := hx s
  rw [EStateM.run_bind]
  cases hrun : x.run s with
  | ok a s' =>
    rw [hrun] at hvars
    have hstep := hf a s'
    dsimp only
    rwa [show s'.vars = s.vars from hvars] at hstep
  | error e s' =>
    rw [hrun] at hvars
    exact hvars

theorem Run.KeepsVars.changesOneVar (hx : KeepsVars x) : ChangesOneVar x := by
  intro s
  have hvars := hx s
  cases hrun : x.run s with
  | ok a s' =>
    rw [hrun] at hvars
    refine ⟨"", fun other _ => ?_⟩
    rw [show s'.vars = s.vars from hvars]
  | error e s' =>
    rw [hrun] at hvars
    exact hvars

/-- A step after which nothing more is done but to give a value. -/
theorem Run.ChangesOneVar.bind_pure (hx : ChangesOneVar x) (g : α → β) :
    ChangesOneVar (x >>= fun a => pure (g a)) := by
  intro s
  have hstep := hx s
  rw [EStateM.run_bind]
  cases hrun : x.run s with
  | ok a s' =>
    rw [hrun] at hstep
    exact hstep
  | error e s' =>
    rw [hrun] at hstep
    exact hstep

theorem Run.ChangesOneVar.assign (ident : String) (value : Int) :
    ChangesOneVar (Run.assign ident value) := by
  intro s
  refine ⟨ident, fun other hother => ?_⟩
  show (s.vars.set ident value).get? other = s.vars.get? other
  rw [Variables.get?_set, if_neg hother]

variable {d : Nat} {ts : List Token} {s : Stmt} {ss : List Stmt}

theorem Grammar.Simple.keepsVars (h : Simple d ts s) : KeepsVars s.run := by
  cases h with
  | pass => exact .pure ()
  | print => exact .bind (Expr.evaluate_keepsVars _) fun _ => .write _

theorem Grammar.Assignment.changesOneVar (h : Assignment d ts s) : ChangesOneVar s.run := by
  cases h with
  | assign | addAssign => exact .bind (Expr.evaluate_keepsVars _) fun _ => .assign _ _

/-- Only the last statement of a line can change a variable. -/
theorem Grammar.Line.changesOneVar (h : Grammar.Line d ts ss) :
    ChangesOneVar (ss.forM Stmt.run) := by
  induction h with
  | empty => exact (KeepsVars.pure ()).changesOneVar
  | simple h _ ih => exact .bind h.keepsVars fun _ => ih
  | assignment h => exact h.changesOneVar.bind_pure id

end ChangesOneVar

/-! ## One line -/

theorem Text.afterFirstLine_of_not_mem {cs : List Char} (h : '\n' ∉ cs.dropLast) :
    afterFirstLine cs = [] := by
  induction cs with
  | nil => rfl
  | cons c cs ih =>
    cases cs with
    | nil => by_cases hc : c = '\n' <;> simp [afterFirstLine, hc]
    | cons d cs =>
      rw [List.dropLast_cons_cons, List.mem_cons, not_or] at h
      rw [afterFirstLine, if_neg (Ne.symm h.1), ih h.2]

/-- A text is read as statements exactly if it is a program. -/
theorem Line.ofSource_eq_statements_iff {source : String} {p : Program} :
    Line.ofSource source = .ok (.statements p) ↔ Program.ofSource source = .ok p := by
  refine ⟨fun h => ?_, Line.ofSource_of_program⟩
  have hmap {answer : Except Error Program} (hanswer : Line.statements <$> answer =
      .ok (.statements p)) : answer = .ok p := by
    cases answer with
    | error e => cases hanswer
    | ok p' =>
      cases hanswer
      rfl
  rw [Program.ofSource_eq_ok_iff]
  unfold Line.ofSource traceLine at h
  cases hts : tokenize source with
  | error e =>
    rw [readTokens_of_error hts] at h
    cases h
  | ok ts =>
    rw [readTokens_of_ok hts] at h
    dsimp only at h
    refine ⟨ts, rfl, ?_⟩
    split at h
    · exact hmap h
    · split at h
      · cases h
      · exact hmap h
      · cases h

/-- A program on one line is a line of the grammar. -/
theorem Program.exists_line {source : String} {p : Program} (h : Program.ofSource source = .ok p)
    (hsource : '\n' ∉ source.toList.dropLast) :
    ∃ d ts, Grammar.Line d ts p.main.statements := by
  obtain ⟨ts, hts, hp⟩ := Program.ofSource_eq_ok_iff.1 h
  obtain ⟨d, hlines, -⟩ := Program.ofTokens_eq_ok_iff.1 hp
  have hshape := Lexer.scan_oneLine .origin false (afterFirstLine_of_not_mem hsource) hts
  obtain ⟨rfl, -⟩ | ⟨body, t, rfl, ht, hbody⟩ := hshape
  · rw [hlines.eq_nil]
    exact ⟨0, [], .empty⟩
  · obtain ⟨d₁, d₂, ss₁, ss₂, hline, hrest, -, hss⟩ := hlines.cut ht hbody
    rw [hss, hrest.eq_nil, List.append_nil]
    exact ⟨d₁, body, hline⟩

/-- **A line that fails changes no variable, and a line that succeeds changes at most one.** It may
have written and read something in any case. -/
theorem runLine_changesOneVar (source : String) (hsource : '\n' ∉ source.toList.dropLast) :
    Run.ChangesOneVar (runLine source) := by
  unfold runLine
  cases hline : Line.ofSource source with
  | error e =>
    have hthrow : Run.KeepsVars (throw e : Run (Option Int)) := .throw e
    exact hthrow.changesOneVar
  | ok line =>
    show Run.ChangesOneVar line.run
    cases line with
    | expression e =>
      rw [Line.run, map_eq_pure_bind]
      exact (Run.KeepsVars.bind (Expr.evaluate_keepsVars e) fun _ => .pure _).changesOneVar
    | statements p =>
      have hp := Line.ofSource_eq_statements_iff.1 hline
      obtain ⟨d, ts, h⟩ := Program.exists_line hp hsource
      exact h.changesOneVar.bind_pure _

/-- The second statement fails, so `x` has still its value, but the first one has been run. -/
theorem runLine_changesOneVar_division :
    let source := "print(x) x = x // 0\n"
    let s := Session.start (.ofList [("x", 7)]) ""
    '\n' ∉ source.toList.dropLast ∧ Run.ChangesOneVar (runLine source) ∧
      Run.sessionAfter ((runLine source).run s) = { s with output := "7\n" } := by
  intro source s
  have hsource : '\n' ∉ source.toList.dropLast := by decide
  exact ⟨hsource, runLine_changesOneVar source hsource, by decide +kernel⟩

end Reckon
