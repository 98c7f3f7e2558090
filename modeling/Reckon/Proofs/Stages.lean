import Reckon.Proofs.Blame
import Reckon.Proofs.Machine
import Reckon.Proofs.Tiling
import Reckon.Proofs.Walk
import Reckon.Proofs.Writing

/-!
# Errors by stage

A text is cut into tokens, the tokens are read as a tree, and the tree is run. Each stage has errors
of its own, and what one stage hands on to the next is never to blame:

* The tokens of a text are well formed and their last is a newline. So a reader finds in each token
  the value that it looks for, and no program ends too early: a newline comes first, which is where
  the reader stops (`Reads.ne_endOfInput`).
* A reader that moves a position along the tokens could pass the last of them, or look for one that is
  not there. `Walk.program` is such a reader, and it has the same answer (`Walk.program_ofTokens`).
* The trees of programs are proper, which `Expr.IsProper` defines. There is a value for each of their
  parts, and each operator can be applied, so a program that runs fails for reasons of its own only
  (`Error.IsOfRun`).
-/

namespace Reckon

open Grammar

/-! ## Tokens of texts -/

/-- A token that says a word carries what its kind calls for. -/
theorem Token.isWellFormed_of_payload {t : Token} {w : Word} (h : t.payload = w.payload) :
    t.IsWellFormed := by
  obtain ⟨hkind, -, hvalue⟩ := Token.payload_eq h
  rw [Token.IsWellFormed, hkind, hvalue]
  cases w <;> simp [Word.payload]

theorem Tiled.isWellFormed {cs : List Char} {i : Nat} {lineOpen : Bool} {tiles : List Tile}
    (h : Tiled cs i lineOpen tiles) : ∀ t ∈ tiles, t.token.IsWellFormed := by
  have hlineEnd (loc : Loc) : (Lexer.lineEnd loc).IsWellFormed := ⟨nofun, nofun⟩
  induction h with
  | done => simp
  | close => simpa using hlineEnd _
  | blank hc h ih => exact ih
  | comment hc h ih => exact ih
  | closingComment hc h ih =>
    rw [List.forall_mem_cons]
    exact ⟨hlineEnd _, ih⟩
  | word w hw hj htext hpayload hspan h ih =>
    rw [List.forall_mem_cons]
    exact ⟨Token.isWellFormed_of_payload hpayload, ih⟩

/-- There are no tokens, or the last of them is a newline. -/
def IsClosed (ts : List Token) : Prop := ts = [] ∨ ∃ body t, ts = body ++ [t] ∧ t.kind = .newline

/-- **What the tokens of a text are like.** -/
theorem tokenize_sound {source : String} {ts : List Token} (h : tokenize source = .ok ts) :
    (∀ t ∈ ts, t.IsWellFormed) ∧ IsClosed ts := by
  obtain ⟨tiles, rfl, htiles⟩ := tiled_of_scan [] h
  constructor
  · intro t ht
    obtain ⟨tile, htile, rfl⟩ := List.mem_map.1 ht
    exact htiles.isWellFormed tile htile
  · rcases List.eq_nil_or_concat tiles with rfl | ⟨body, last, rfl⟩
    · exact .inl rfl
    · have hkind := htiles.getLast?_kind last (by simp)
      exact .inr ⟨body.map Tile.token, last.token, by simp, hkind⟩

/-- A text without tokens is refused for a lexical cause. -/
theorem Lexer.scan_eq_error {loc : Loc} {lineOpen : Bool} {before : List Token} {cs : List Char}
    {d : Diagnostic} (h : scan loc lineOpen before cs = .error d) :
    d.report.kind = .tokenization := by
  fun_induction scan loc lineOpen before cs with
  | case1 => cases h
  | case2 =>
    cases h
    rfl
  | case3 loc lineOpen before c cs piece width hcut ih => exact ih h

/-! ## Readers never reach the end -/

section Cut

variable {d : Nat} {body ts us ws : List Token} {t : Token} {ss : List Stmt}

/-- A token that is not among the first ones stands behind them. -/
theorem exists_of_append_eq (h : ws ++ ts = body ++ t :: us) (ht : t ∉ ws) :
    ∃ mid, body = ws ++ mid ∧ ts = mid ++ t :: us := by
  rcases List.append_eq_append_iff.1 h with hbehind | ⟨mid, rfl, hmid⟩
  · exact hbehind
  · cases mid with
    | nil => exact ⟨[], by simp, hmid.symm⟩
    | cons a mid =>
      cases hmid
      exact absurd (by simp) ht

/-- A program can be cut behind any of its newlines. -/
theorem Grammar.Lines.of_append (h : Lines d (body ++ t :: us) ss) (ht : t.kind = .newline) :
    ∃ d' ss', Lines d' (body ++ [t]) ss' := by
  generalize hts : body ++ t :: us = ts at h
  induction h generalizing body with
  | last h =>
    subst hts
    exact absurd ht (h.kind_ne_newline t (by simp))
  | @cons d₁ d₂ line rest u ss₁ ss₂ h hu _ ih =>
    have hmem : t ∉ line := fun hmem => h.kind_ne_newline t hmem ht
    obtain ⟨mid, rfl, hrest⟩ := exists_of_append_eq hts.symm hmem
    cases mid with
    | nil =>
      rw [List.append_nil]
      exact ⟨d₁, ss₁, (Lines.last h).append_newline ht⟩
    | cons a mid =>
      cases hrest
      obtain ⟨d', ss', hlines⟩ := ih rfl
      rw [List.append_assoc, List.cons_append]
      exact ⟨_, _, .cons h hu hlines⟩

namespace Parser

/-- Nothing follows the newline behind an expression. -/
theorem IsWhole.of_append (h : IsWhole d (body ++ t :: us)) (ht : t.kind = .newline) :
    IsWhole d (body ++ [t]) := by
  obtain ⟨ws, vs, e, hts, hws, hvs⟩ := h
  have hmem : t ∉ ws := fun hmem => hws.kind_ne_newline t hmem ht
  obtain ⟨mid, rfl, rfl⟩ := exists_of_append_eq hts.symm hmem
  have hnil : mid = [] ∧ us = [] := by
    rcases hvs with hvs | ⟨u, -, hvs⟩
    · simp at hvs
    · cases mid with
      | nil =>
        cases hvs
        exact ⟨rfl, rfl⟩
      | cons a mid => simp at hvs
  obtain ⟨rfl, rfl⟩ := hnil
  exact ⟨ws, [t], e, by rw [List.append_nil], hws, hvs⟩

/-- Where all that is accepted can be cut behind a newline, tokens with a newline at their end do not
end too early. -/
theorem Reads.ne_endOfInput {α : Type} {reader : Nat → Parser α} {L : Nat → List Token → Prop}
    (hreads : Reads reader L)
    (hcut : ∀ {d body us t}, L d (body ++ t :: us) → t.kind = .newline → ∃ d', L d' (body ++ [t]))
    (ht : t.kind = .newline) {n : Nat} {c : GrammarCause} {rest : List Token}
    (h : (reader n).run (body ++ [t]) = .error (.cause c) rest) : c ≠ .endOfInput := by
  rintro rfl
  have hdeep : GrammarCause.endOfInput ≠ .nestedTooDeeply := nofun
  obtain ⟨ws, hws, hblames, ⟨us, hbegun⟩, hdead⟩ := hreads.of_error hdeep h
  -- all tokens were read, so they can be completed, and then they would have been accepted
  obtain rfl : rest = [] := hblames
  rw [List.append_nil] at hws
  subst hws
  obtain ⟨d, hd⟩ := hreads.accepts_iff.1 hbegun
  rw [List.append_assoc] at hd
  refine hdead [] rfl (hreads.accepts_iff.2 ?_)
  rw [List.append_nil]
  exact hcut hd ht

theorem orderly_wholeExpression (n : Nat) : Orderly (wholeExpression n) := by
  refine (orderly_expression n 0).bind fun e => orderly_skipNewline.bind fun _ =>
    orderly_peek?.bind fun next => ?_
  cases next with
  | none => exact orderly_pure e
  | some t => exact orderly_unexpected .endOfLine t

/-- **What can be wrong with a text**, whatever it is read as: it has no tokens, or these are refused
by the grammar, or they end too early and then there are none at all. -/
theorem onSource_eq_error {α : Type} {reader : Nat → Parser α} {L : Nat → List Token → Prop}
    (horderly : ∀ n, Orderly (reader n)) (hreads : Reads reader L)
    (hcut : ∀ {d body us t}, L d (body ++ t :: us) → t.kind = .newline → ∃ d', L d' (body ++ [t]))
    {n : Nat} {source : String} {e : Error}
    (h : (readTokens source >>= (reader n).onTokens) = .error e) :
    ∃ d : Diagnostic, e = .diagnostic d ∧
      (d.report.kind = .tokenization ∨ d.report.kind = .parsing ∨
        d.report.kind = .unexpectedEnd ∧ tokenize source = .ok []) := by
  cases hts : tokenize source with
  | error d =>
    rw [readTokens_of_error hts] at h
    cases h
    exact ⟨d, rfl, .inl (Lexer.scan_eq_error hts)⟩
  | ok ts =>
    rw [readTokens_of_ok hts] at h
    change (reader n).onTokens ts = .error e at h
    obtain ⟨hwf, hclosed⟩ := tokenize_sound hts
    cases hrun : (reader n).run ts with
    | ok a rest =>
      rw [onTokens_of_ok hrun] at h
      cases h
    | error r rest =>
      cases r with
      | malformed => exact absurd hrun ((horderly n ts).cause hwf rest)
      | cause c =>
        rw [onTokens_of_cause hrun] at h
        cases h
        refine ⟨_, rfl, .inr ?_⟩
        cases c with
        | mismatch | unexpected | nestedTooDeeply => exact .inl rfl
        | endOfInput =>
          rcases hclosed with rfl | ⟨body, t, rfl, ht⟩
          · exact .inr ⟨rfl, rfl⟩
          · exact absurd rfl (hreads.ne_endOfInput hcut ht hrun)

end Parser

end Cut

theorem Program.ofSource_eq (source : String) (limit : Nat) :
    Program.ofSource source limit = readTokens source >>= (Program.ofTokens · limit) := by
  unfold Program.ofSource traceProgram
  cases readTokens source with
  | error e => rfl
  | ok ts =>
    dsimp only [bind, Except.bind]
    cases Program.ofTokens ts limit <;> rfl

/-- A text that is no program is refused by the first two stages, and never for its end. -/
theorem Program.ofSource_eq_error {source : String} {e : Error} {limit : Nat}
    (h : Program.ofSource source limit = .error e) :
    ∃ d : Diagnostic, e = .diagnostic d ∧
      (d.report.kind = .tokenization ∨ d.report.kind = .parsing) := by
  rw [Program.ofSource_eq] at h
  obtain ⟨d, rfl, hlexical | hgrammar | ⟨-, hnil⟩⟩ :=
    Parser.onSource_eq_error Parser.orderly_program Parser.reads_program
      (fun ⟨ss, hlines⟩ ht => hlines.of_append ht) h
  · exact ⟨d, rfl, .inl hlexical⟩
  · exact ⟨d, rfl, .inr hgrammar⟩
  · -- no tokens at all are the program that does nothing
    rw [readTokens_of_ok hnil] at h
    cases h

theorem Program.ofSource_of_tokenize {source : String} {ts : List Token} {limit : Nat}
    (hts : tokenize source = .ok ts) :
    Program.ofSource source limit = Program.ofTokens ts limit := by
  rw [Program.ofSource_eq, readTokens_of_ok hts]
  rfl

/-- If there are tokens, then they are what is wrong with a text that is no program. -/
theorem Program.ofTokens_eq_error_of_tokenize {source : String} {ts : List Token} {limit : Nat}
    {e : Error} (hts : tokenize source = .ok ts) (h : Program.ofTokens ts limit = .error e) :
    ∃ d : Diagnostic, e = .diagnostic d ∧ d.report.kind = .parsing := by
  obtain ⟨c, span, rfl⟩ := Program.ofTokens_eq_error (tokenize_sound hts).1 h
  obtain ⟨d, hd, hkind⟩ := Program.ofSource_eq_error ((Program.ofSource_of_tokenize hts).trans h)
  cases hd
  rcases hkind with hkind | hkind
  · cases c <;> cases hkind
  · exact ⟨_, rfl, hkind⟩

/-- A text that is no expression is refused by the first two stages, and for its end only if there is
nothing in it. -/
theorem Expr.ofSource_eq_error {source : String} {e : Error} {limit : Nat}
    (h : Expr.ofSource source limit = .error e) :
    ∃ d : Diagnostic, e = .diagnostic d ∧
      (d.report.kind = .tokenization ∨ d.report.kind = .parsing ∨
        d.report.kind = .unexpectedEnd ∧ tokenize source = .ok []) :=
  Parser.onSource_eq_error Parser.orderly_wholeExpression Parser.reads_wholeExpression
    (fun hwhole ht => ⟨_, hwhole.of_append ht⟩) h

/-! ## Steps along the tokens -/

section Steps

variable {α : Type} {ts : List Token} {budget limit : Nat}

theorem Parser.fst_onto_run (p : Parser α) (ts : List Token) :
    (Walk.onto ts (p.run ts)).1 = p.onTokens ts := by
  cases hrun : p.run ts with
  | ok a us => rw [Parser.onTokens_of_ok hrun, Walk.onto]
  | error r us =>
    cases r with
    | cause c =>
      rw [Parser.onTokens_of_cause hrun]
      rfl
    | malformed =>
      rw [Parser.onTokens_of_malformed hrun]
      rfl

/-- Along the tokens, the walk comes to an end with the answer of the reader. -/
theorem Walk.program_ofTokens (hbudget : ts.length < budget) (hlimit : ts.length < limit) :
    ∃ s, Walk.program budget (.ofTokens ts) = some (Program.ofTokens ts limit, s) := by
  have hstart : TokenStream.cursor ts ts = .ofTokens ts := by
    rw [TokenStream.cursor, Nat.sub_self]
    rfl
  have hfollows := Walk.follows_program (List.suffix_refl ts) hbudget hlimit
  rw [Walk.Follows, hstart] at hfollows
  rw [hfollows, Program.ofTokens, ← Parser.fst_onto_run]
  exact ⟨_, rfl⟩

/-- Only a limit that stops the reader makes a difference to its answer. -/
theorem Program.ofTokens_limit (ts : List Token) (limit : Nat) :
    NestedTooDeeply (Program.ofTokens ts limit) ∨
      Program.ofTokens ts limit = Program.ofTokens ts (ts.length + 1) := by
  by_cases hlimit : ts.length < limit
  · right
    obtain ⟨s, hs⟩ := Walk.program_ofTokens (Nat.lt_succ_self ts.length) hlimit
    obtain ⟨s', hs'⟩ := Walk.program_ofTokens (Nat.lt_succ_self ts.length) (Nat.lt_succ_self ts.length)
    rw [hs] at hs'
    exact congrArg Prod.fst (Option.some.inj hs')
  · have hextends : Parser.Extends (Parser.program (ts.length + 1)) (Parser.program limit) :=
      Parser.extends_program (by omega)
    rcases hextends ts with ⟨us, hstop⟩ | heq
    · exact .inl ⟨_, Parser.onTokens_of_cause hstop⟩
    · right
      rw [Program.ofTokens, Program.ofTokens, ← Parser.fst_onto_run, ← Parser.fst_onto_run, heq]

end Steps

/-! ## Proper trees -/

/-- Every part of the statement has a meaning. -/
def Stmt.IsProper : Stmt → Prop
  | assign _ _ value | print _ value => value.IsProper
  | pass _ => True
  | misplaced .. => False

namespace Grammar

variable {level : Level} {d : Nat} {ts : List Token} {e : Expr} {s : Stmt} {ss : List Stmt}

theorem Phrase.isProper (h : Phrase level d ts e) : e.IsProper := by
  induction h with
  | sum _ _ ho _ ihl ihr =>
    refine ⟨?_, ihl, ihr⟩
    rcases ho with rfl | rfl <;> rfl
  | product _ _ ho _ ihl ihr =>
    refine ⟨?_, ihl, ihr⟩
    rcases ho with rfl | rfl | rfl <;> rfl
  | power _ _ _ ihl ihr => exact ⟨rfl, ihl, ihr⟩
  | ofProduct _ ih | ofPower _ ih | ofPrimary _ ih => exact ih
  | parens _ _ _ ih => exact ih
  | number | name | input => trivial

theorem Simple.isProper (h : Simple d ts s) : s.IsProper := by
  cases h with
  | pass => trivial
  | print _ _ h _ => exact h.isProper

theorem Assignment.isProper (h : Assignment d ts s) : s.IsProper := by
  cases h with
  | assign _ _ _ _ h => exact h.isProper
  | addAssign _ _ _ _ h => exact ⟨rfl, trivial, h.isProper⟩

theorem Line.isProper (h : Line d ts ss) : ∀ s ∈ ss, s.IsProper := by
  induction h with
  | empty => simp
  | simple h _ ih =>
    rw [List.forall_mem_cons]
    exact ⟨h.isProper, ih⟩
  | assignment h =>
    rw [List.forall_mem_singleton]
    exact h.isProper

/-- **The trees of programs are proper.** -/
theorem Lines.isProper (h : Lines d ts ss) : ∀ s ∈ ss, s.IsProper := by
  induction h with
  | last h => exact h.isProper
  | cons h _ _ ih =>
    rw [List.forall_mem_append]
    exact ⟨h.isProper, ih⟩

end Grammar

theorem Program.ofSource_isProper {source : String} {p : Program} {limit : Nat}
    (h : Program.ofSource source limit = .ok p) : ∀ s ∈ p.main.statements, s.IsProper := by
  obtain ⟨ts, -, hp⟩ := Program.ofSource_eq_ok_iff.1 h
  obtain ⟨d, hlines, -⟩ := Program.ofTokens_eq_ok_iff.1 hp
  exact hlines.isProper

theorem Expr.ofTokens_isProper {ts : List Token} {e : Expr} {limit : Nat}
    (h : Expr.ofTokens ts limit = .ok e) : e.IsProper := by
  obtain ⟨rest, hrun⟩ := Parser.onTokens_eq_ok_iff.1 h
  rw [Parser.wholeExpression_eq, Parser.run_bind_eq_ok_iff] at hrun
  obtain ⟨e', mid, he, hfinish⟩ := hrun
  obtain ⟨d, ws, -, hws, -⟩ := Parser.expression_sum_sound he
  by_cases hmid : Parser.IsEnd mid
  · rw [Parser.run_finish_of_isEnd hmid] at hfinish
    cases hfinish
    exact hws.isProper
  · obtain ⟨vs, t, us, -, -, herr⟩ := Parser.run_finish_of_not_isEnd (e := e') hmid
    rw [herr] at hfinish
    cases hfinish

/-! ## Errors of running programs -/

/-- The error is one that a running program may meet: a diagnostic of interpretation or of overflow,
which does not say that an operator is none of arithmetic, or a number with too many digits that was
typed by the user. -/
def Error.IsOfRun : Error → Prop
  | diagnostic d =>
    (d.report.kind = .interpretation ∨ d.report.kind = .overflow) ∧
      ∀ o, d.report.message ≠ (RuntimeCause.notArithmetic o).message
  | fault f => ∃ count, f = .tooManyDigits count ∧ maxDigits < count

theorem Text.head?_append {first rest : String} {c : Char} (h : first.toList.head? = some c) :
    (first ++ rest).toList.head? = some c := by
  rw [String.toList_append, List.head?_append, h, Option.some_or]

theorem Text.head?_quoted (text : String) :
    (Text.quoted text).toList.head? = some (Text.quoteMark text.toList) := by
  rw [Text.quoted, String.toList_ofList]
  rfl

/-- Only what is said about an operator begins with a quote. -/
theorem RuntimeCause.message_ne {cause : RuntimeCause} (h : ∀ o, cause ≠ .notArithmetic o)
    (o : Operator) : cause.message ≠ (RuntimeCause.notArithmetic o).message := by
  have hquote : (RuntimeCause.notArithmetic o).message.toList.head? = some '\x27' := by
    refine (Text.head?_append (Text.head?_quoted o.symbol)).trans ?_
    cases o <;> decide
  intro heq
  rw [← heq] at hquote
  have hletter (c : Char) (hc : c ≠ '\x27') (hhead : cause.message.toList.head? = some c) : False :=
    hc (Option.some.inj (hhead.symm.trans hquote))
  cases cause with
  | notArithmetic o' => exact h o' rfl
  | resultOverflow => exact hletter 'r' (by decide) (by decide)
  | divisionByZero => exact hletter 'd' (by decide) (by decide)
  | endOfInput => exact hletter 'e' (by decide) (by decide)
  | literalOverflow n =>
    exact hletter 'l' (by decide) (Text.head?_append (Text.head?_append (by decide)))
  | undefinedName ident =>
    exact hletter 'n' (by decide) (Text.head?_append (Text.head?_append (by decide)))
  | invalidNumber text =>
    exact hletter 'i' (by decide) (Text.head?_append (by decide))
  | numberOutOfRange text =>
    exact hletter 'n' (by decide) (Text.head?_append (Text.head?_append (by decide)))

theorem Error.isOfRun_runtime {cause : RuntimeCause} {span : Span}
    (h : ∀ o, cause ≠ .notArithmetic o) :
    Error.IsOfRun (.diagnostic ⟨.runtime cause, span⟩) := by
  refine ⟨?_, RuntimeCause.message_ne h⟩
  cases cause with
  | resultOverflow | literalOverflow => exact .inr rfl
  | _ => exact .inl rfl

section Running

open Run (Ensures)

theorem checked_eq_error {failure cause : RuntimeCause} {n : Int}
    (h : checked failure n = .error cause) : cause = failure := by
  unfold checked at h
  split at h
  · cases h
  · cases h
    rfl

theorem power_eq_error {base exponent : Int} {cause : RuntimeCause}
    (h : power base exponent = .error cause) : cause = .resultOverflow := by
  unfold power at h
  split at h
  · cases h
  split at h
  · cases h
  split at h
  · cases h
  split at h
  · cases h
    rfl
  · exact checked_eq_error h

/-- An operator of arithmetic can fail in two ways. -/
theorem Operator.apply_eq_error {o : Operator} (ho : o.isArithmetic) {left right : Int}
    {cause : RuntimeCause} (h : o.apply left right = .error cause) :
    cause = .resultOverflow ∨ cause = .divisionByZero := by
  cases o with
  | plus | minus | times => exact .inl (checked_eq_error h)
  | div =>
    rw [Operator.apply] at h
    split at h
    · cases h
      exact .inr rfl
    · exact .inl (checked_eq_error h)
  | mod =>
    rw [Operator.apply] at h
    split at h
    · cases h
      exact .inr rfl
    · cases h
  | pow => exact .inl (power_eq_error h)
  | assign | addAssign => cases ho

/-- A proper expression fails for reasons of its own only. -/
theorem Expr.evaluate_isOfRun {e : Expr} (he : e.IsProper) :
    Ensures (fun _ => True) Error.IsOfRun e.evaluate := by
  rw [Expr.evaluate_eq]
  induction e with
  | number span value =>
    refine .ofResult span _ (fun _ _ => trivial) fun cause hcause => ?_
    rw [checked_eq_error hcause]
    exact Error.isOfRun_runtime fun _ h => by cases h
  | name span ident =>
    refine Ensures.get.bind fun s _ => ?_
    cases s.vars.get? ident with
    | none => exact .throw (Error.isOfRun_runtime fun _ h => by cases h)
    | some value => exact .pure trivial
  | input span prompt =>
    show Ensures _ _ (readNumber span prompt)
    rw [readNumber_eq]
    refine (Ensures.write prompt).bind fun _ _ => Ensures.readLine.bind fun line _ =>
      .ofExcept _ (fun _ _ => trivial) fun e he => ?_
    obtain ⟨cause, rfl, hcause⟩ | ⟨count, rfl, hcount⟩ := numberOnLine_eq_error he
    · exact Error.isOfRun_runtime hcause
    · exact ⟨count, rfl, hcount⟩
  | binary span l o r ihl ihr =>
    obtain ⟨ho, hl, hr⟩ := he
    refine (ihl hl).bind fun left _ => (ihr hr).bind fun right _ =>
      .ofResult span _ (fun _ _ => trivial) fun cause hcause => ?_
    rcases Operator.apply_eq_error ho hcause with rfl | rfl
    · exact Error.isOfRun_runtime fun _ h => by cases h
    · exact Error.isOfRun_runtime fun _ h => by cases h
  | misplaced => cases he

theorem Stmt.run_isOfRun {s : Stmt} (hs : s.IsProper) :
    Ensures (fun _ => True) Error.IsOfRun s.run := by
  cases s with
  | assign span ident value =>
    exact (Expr.evaluate_isOfRun hs).bind fun _ _ => fun _ => trivial
  | print span value => exact (Expr.evaluate_isOfRun hs).bind fun _ _ => .write _
  | pass span => exact .pure trivial
  | misplaced => cases hs

/-- **Proper statements fail for reasons of their own only.** -/
theorem Stmts.run_isOfRun {ss : List Stmt} (hss : ∀ s ∈ ss, s.IsProper) :
    Ensures (fun _ => True) Error.IsOfRun (ss.forM Stmt.run) := by
  induction ss with
  | nil => exact .pure trivial
  | cons s ss ih =>
    rw [List.forall_mem_cons] at hss
    exact (Stmt.run_isOfRun hss.1).bind fun _ _ => ih hss.2

theorem Expr.ofSource_isProper {source : String} {e : Expr} {limit : Nat}
    (h : Expr.ofSource source limit = .ok e) : e.IsProper := by
  unfold Expr.ofSource at h
  cases hts : readTokens source with
  | error e =>
    rw [hts] at h
    cases h
  | ok ts =>
    rw [hts] at h
    exact Expr.ofTokens_isProper h

/-- An error of a running program is of a kind of its own. -/
theorem Error.IsOfRun.kind_ne_unexpectedEnd {d : Diagnostic} (h : Error.IsOfRun (.diagnostic d)) :
    d.report.kind ≠ .unexpectedEnd := by
  intro hkind
  rcases h.1 with hrun | hrun <;>
  · rw [hrun] at hkind
    cases hkind

/-- Evaluating a text finds its end unexpectedly if and only if there are no tokens in it. -/
theorem evaluateSource_unexpectedEnd_iff (source : String) (s : Session) :
    (∃ d s', (evaluateSource source).run s = .error (.diagnostic d) s' ∧
      d.report.kind = .unexpectedEnd) ↔ tokenize source = .ok [] := by
  unfold evaluateSource
  constructor
  · rintro ⟨d, s', hrun, hkind⟩
    cases he : Expr.ofSource source with
    | error e =>
      rw [he] at hrun
      cases hrun
      obtain ⟨d, ⟨⟩, hlexical | hgrammar | ⟨-, hnil⟩⟩ := Expr.ofSource_eq_error he
      · rw [hlexical] at hkind
        cases hkind
      · rw [hgrammar] at hkind
        cases hkind
      · exact hnil
    | ok e =>
      rw [he] at hrun
      have hfails := Expr.evaluate_isOfRun (Expr.ofSource_isProper he) s
      rw [show e.evaluate.run s = _ from hrun] at hfails
      exact absurd hkind (Error.IsOfRun.kind_ne_unexpectedEnd hfails)
  · intro hnil
    have he : Expr.ofSource source = Expr.ofTokens [] := by
      rw [Expr.ofSource, readTokens_of_ok hnil]
      rfl
    rw [he]
    exact ⟨_, s, rfl, rfl⟩

/-- **Each stage has its own errors.** A text that is no program is refused by a diagnostic of
tokenization or of parsing. Reading it by steps along its tokens comes to an end and makes no step that
may not be made: if there is no program, it is the grammar that is violated, and the answer is the one
of the text, unless that is nested too deeply. Evaluating a text finds its end unexpectedly if and only if there are no
tokens in it. Whatever has been read as a program or an expression, it fails only in ways that a
running program may: its diagnostics are of interpretation or of overflow, they never say that an
operator is none of arithmetic, and the only other failure is a number that was typed with too many
digits. -/
theorem errors_byStage (source : String) :
    (∀ e, Program.ofSource source = .error e → ∃ d : Diagnostic, e = .diagnostic d ∧
      (d.report.kind = .tokenization ∨ d.report.kind = .parsing)) ∧
    (∀ ts, tokenize source = .ok ts → ∃ result,
      (∀ budget, ts.length < budget →
        ∃ s, Walk.program budget (.ofTokens ts) = some (result, s)) ∧
      (∀ e, result = .error e → ∃ d : Diagnostic, e = .diagnostic d ∧ d.report.kind = .parsing) ∧
      (NestedTooDeeply (Program.ofSource source) ∨ Program.ofSource source = result)) ∧
    (∀ s, (∃ d s', (evaluateSource source).run s = .error (.diagnostic d) s' ∧
      d.report.kind = .unexpectedEnd) ↔ tokenize source = .ok []) ∧
    (∀ p, Program.ofSource source = .ok p → Ensures (fun _ => True) Error.IsOfRun p.run) ∧
    ∀ e, Expr.ofSource source = .ok e → Ensures (fun _ => True) Error.IsOfRun e.evaluate := by
  refine ⟨fun e => Program.ofSource_eq_error, fun ts hts => ?_,
    evaluateSource_unexpectedEnd_iff source,
    fun p hp => Stmts.run_isOfRun (Program.ofSource_isProper hp),
    fun e he => Expr.evaluate_isOfRun (Expr.ofSource_isProper he)⟩
  refine ⟨Program.ofTokens ts (ts.length + 1), fun budget hbudget => ?_, fun e he => ?_, ?_⟩
  · exact Walk.program_ofTokens hbudget (Nat.lt_succ_self ts.length)
  · exact Program.ofTokens_eq_error_of_tokenize hts he
  · rw [Program.ofSource_of_tokenize hts]
    exact Program.ofTokens_limit ts nestingLimit

/-- There is nothing to evaluate in a comment. Parentheses that are left open are missed at the end of
the line, by steps along the tokens too, and a program that divides by zero could be read all the
same. -/
theorem errors_byStage_comment :
    let s := Session.start ∅ "1"
    let ts : List Token := [⟨.ident, "print", ⟨⟨1, 1⟩, ⟨1, 5⟩⟩, none⟩,
      ⟨.lparen, "(", .point ⟨1, 6⟩, none⟩, ⟨.lparen, "(", .point ⟨1, 7⟩, none⟩,
      ⟨.number, "1", .point ⟨1, 8⟩, some (.int 1)⟩, Lexer.lineEnd ⟨1, 9⟩]
    tokenize "# note" = .ok [] ∧
      (∃ d s', (evaluateSource "# note").run s = .error (.diagnostic d) s' ∧
        d.report.kind = .unexpectedEnd) ∧
      (∃ d : Diagnostic, Program.ofSource "print((1" = .error (.diagnostic d) ∧
        (d.report.kind = .tokenization ∨ d.report.kind = .parsing)) ∧
      tokenize "print((1" = .ok ts ∧
      (∃ (d : Diagnostic) (s' : TokenStream), d.report.kind = .parsing ∧
        Walk.program 6 (.ofTokens ts) = some (.error (.diagnostic d), s')) ∧
      ∃ p, Program.ofSource "x = input(\"?\") // 0" = .ok p ∧
        Ensures (fun _ => True) Error.IsOfRun p.run := by
  intro s ts
  have hnil : tokenize "# note" = .ok [] := eq_ok_of_toOption (by decide +kernel)
  have hts : tokenize "print((1" = .ok ts := eq_ok_of_toOption (by decide +kernel)
  refine ⟨hnil, ((errors_byStage "# note").2.2.1 s).2 hnil, ?_, hts, ?_, ?_⟩
  · have hfails : (Program.ofSource "print((1").isOk = false := by decide +kernel
    cases h : Program.ofSource "print((1" with
    | ok p =>
      rw [h] at hfails
      cases hfails
    | error e =>
      obtain ⟨d, rfl, hd⟩ := (errors_byStage "print((1").1 e h
      exact ⟨d, rfl, hd⟩
  · obtain ⟨result, hwalk, herror, -⟩ := (errors_byStage "print((1").2.1 ts hts
    obtain ⟨s', hs'⟩ := hwalk 6 (by decide)
    have hfails : (Walk.program 6 (.ofTokens ts)).map (fun answer => answer.1.isOk) = some false := by
      decide +kernel
    rw [hs'] at hfails
    cases result with
    | ok p => cases hfails
    | error e =>
      obtain ⟨d, rfl, hd⟩ := herror e rfl
      exact ⟨d, s', hd, hs'⟩
  · have hreads : (Program.ofSource "x = input(\"?\") // 0").isOk := by decide +kernel
    cases h : Program.ofSource "x = input(\"?\") // 0" with
    | ok p => exact ⟨p, rfl, (errors_byStage _).2.2.2.1 p h⟩
    | error e =>
      rw [h] at hreads
      cases hreads

end Running

end Reckon
