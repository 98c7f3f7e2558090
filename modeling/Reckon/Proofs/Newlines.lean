import Reckon.Proofs.Blame

/-!
# What newlines say

A newline ends a statement, and that is all that a reader of programs asks of it. It makes no
difference how a newline is spelled, where exactly it stands, or how many of them follow each other,
except that an error may point at one.

Tokens are compared by `Alike`. It follows two lists of tokens along their lines, as the scanner does,
and demands that the last line is closed. The shape of the proof is that of `Reckon.Proofs.Lookahead`:

* `Agree` says that two answers are the same one. It is kept by sequencing (`Agree.bind`).
* Within a line no reader passes over a newline, so each of them leaves tokens of an open line
  (`agree_expression`, `agree_statement`). What it leaves is never empty, and a refusal always has a
  token to point at.
* Only the reader of all statements passes over newlines, and it does not count them
  (`agree_allStatements`).
-/

namespace Reckon

open Grammar

/-! ## Tokens line by line -/

/-- Whether there are tokens on the line behind the tokens `ts`, where `lineOpen` says whether there
are any before them. -/
def lineOpenAfter (lineOpen : Bool) (ts : List Token) : Bool :=
  ts.foldl (fun _ t => decide (t.kind ≠ .newline)) lineOpen

theorem lineOpenAfter_cons (lineOpen : Bool) (t : Token) (ts : List Token) :
    lineOpenAfter lineOpen (t :: ts) = lineOpenAfter (decide (t.kind ≠ .newline)) ts := rfl

theorem lineOpenAfter_append (lineOpen : Bool) (ts us : List Token) :
    lineOpenAfter lineOpen (ts ++ us) = lineOpenAfter (lineOpenAfter lineOpen ts) us :=
  List.foldl_append

/-- The tokens are the same, up to newlines. These may be replaced by others that are `near` to them,
and in the second list there may be more of them where no line is open. Both lists end with a line that
is closed. -/
inductive Alike (near : Token → Token → Prop) :
    (lineOpen : Bool) → (ts us : List Token) → Prop
  | nil : Alike near false [] []
  | token {lineOpen : Bool} {t : Token} {ts us : List Token} (ht : t.kind ≠ .newline)
      (h : Alike near true ts us) : Alike near lineOpen (t :: ts) (t :: us)
  | newline {lineOpen : Bool} {t u : Token} {ts us : List Token} (ht : t.kind = .newline)
      (hu : u.kind = .newline) (hnear : near t u) (h : Alike near false ts us) :
      Alike near lineOpen (t :: ts) (u :: us)
  | extra {u : Token} {ts us : List Token} (hu : u.kind = .newline) (h : Alike near false ts us) :
      Alike near false ts (u :: us)

variable {near : Token → Token → Prop} {lineOpen : Bool} {ts us ws : List Token} {t u : Token}

/-- Tokens stay alike behind others. -/
theorem Alike.append (hnear : ∀ t ∈ ws, near t t) (h : Alike near (lineOpenAfter lineOpen ws) ts us) :
    Alike near lineOpen (ws ++ ts) (ws ++ us) := by
  induction ws generalizing lineOpen with
  | nil => exact h
  | cons t ws ih =>
    rw [lineOpenAfter_cons] at h
    rw [List.forall_mem_cons] at hnear
    by_cases ht : t.kind = .newline
    · rw [decide_eq_false (not_not_intro ht)] at h
      exact .newline ht ht hnear.1 (ih hnear.2 h)
    · rw [decide_eq_true ht] at h
      exact .token ht (ih hnear.2 h)

theorem Alike.head?_kind (h : Alike near true ts us) :
    ts.head?.map Token.kind = us.head?.map Token.kind := by
  cases h with
  | token => rfl
  | newline ht hu => simp [ht, hu]

/-! ## Answers that agree -/

/-- The rejections say the same. -/
def Rejection.SaysSame : Rejection → Rejection → Prop
  | .cause c, .cause c' => c.kind = c'.kind ∧ c.message = c'.message ∧ c.hint = c'.hint
  | .malformed, .malformed => True
  | _, _ => False

theorem Rejection.SaysSame.refl (r : Rejection) : r.SaysSame r := by
  cases r with
  | cause c => exact ⟨rfl, rfl, rfl⟩
  | malformed => trivial

theorem Token.describe_of_newline (ht : t.kind = .newline) : t.describe = "end of line" := by
  rw [describe, ht]

/-- All newlines are missed in the same words. -/
theorem Rejection.saysSame_mismatch (kind : TokenKind) (ht : t.kind = .newline)
    (hu : u.kind = .newline) :
    SaysSame (.cause (.mismatch kind none t)) (.cause (.mismatch kind none u)) := by
  refine ⟨rfl, ?_, rfl⟩
  rw [GrammarCause.message, GrammarCause.message, Token.describe_of_newline ht,
    Token.describe_of_newline hu]

/-- All newlines are refused in the same words. Only for an operator is its spelling repeated. -/
theorem Rejection.saysSame_unexpected {wanted : Wanted} (hwanted : wanted ≠ .arithmeticOperator)
    (ht : t.kind = .newline) (hu : u.kind = .newline) :
    SaysSame (.cause (.unexpected wanted t)) (.cause (.unexpected wanted u)) := by
  refine ⟨rfl, ?_, ?_⟩
  · rw [GrammarCause.message, GrammarCause.message, Token.describe_of_newline ht,
      Token.describe_of_newline hu]
  · cases wanted with
    | arithmeticOperator => exact absurd rfl hwanted
    | _ => rfl

namespace Parser

variable {α β : Type} {p : Parser α} {f : α → Parser β} {n : Nat} {m : Int}

/-- Two readers give the same answer: the same result, leaving tokens that are alike, or refusals that
say the same within lines that are alike. -/
inductive Agree (near : Token → Token → Prop) (lineOpen : Bool) :
    (r r' : EStateM.Result Rejection (List Token) α) → Prop
  | ok (a : α) {ts us : List Token} (h : Alike near lineOpen ts us) :
      Agree near lineOpen (.ok a ts) (.ok a us)
  | error {r r' : Rejection} {ts us : List Token} (hr : r.SaysSame r') (h : Alike near true ts us) :
      Agree near lineOpen (.error r ts) (.error r' us)

/-- One reader after the other. -/
theorem Agree.bind {between : Bool} (hp : Agree near between (p.run ts) (p.run us))
    (hf : ∀ a ts' us', p.run ts = .ok a ts' → p.run us = .ok a us' → Alike near between ts' us' →
      Agree near lineOpen ((f a).run ts') ((f a).run us')) :
    Agree near lineOpen ((p >>= f).run ts) ((p >>= f).run us) := by
  generalize hts : p.run ts = r, hus : p.run us = r' at hp
  cases hp with
  | ok a h =>
    rw [run_bind_of_ok hts, run_bind_of_ok hus]
    exact hf a _ _ hts hus h
  | error hr h =>
    rw [run_bind_of_error hts, run_bind_of_error hus]
    exact .error hr h

/-- A reader that refuses one newline refuses the other. -/
theorem Agree.refuse_newline {r r' : Rejection} (hr : r.SaysSame r') (ht : t.kind = .newline)
    (hu : u.kind = .newline) (hnear : near t u) (h : Alike near false ts us)
    (hrun : p.run (t :: ts) = .error r (t :: ts)) (hrun' : p.run (u :: us) = .error r' (u :: us)) :
    Agree near lineOpen (p.run (t :: ts)) (p.run (u :: us)) := by
  rw [hrun, hrun']
  exact .error hr (.newline ht hu hnear h)

/-- A reader that refuses a token refuses it whatever follows. -/
theorem Agree.refuse_token (r : Rejection) (ht : t.kind ≠ .newline) (h : Alike near true ts us)
    (hrun : ∀ ts, p.run (t :: ts) = .error r (t :: ts)) :
    Agree near lineOpen (p.run (t :: ts)) (p.run (t :: us)) := by
  rw [hrun, hrun]
  exact .error (.refl r) (.token ht h)

theorem agree_expect {kind : TokenKind} (hkind : kind ≠ .newline) (h : Alike near true ts us) :
    Agree near true ((expect kind).run ts) ((expect kind).run us) := by
  have hrefuse {v : Token} (hv : v.kind ≠ kind) (vs : List Token) :
      (expect kind).run (v :: vs) = .error (.cause (.mismatch kind none v)) (v :: vs) := by
    rw [run_expect_cons, if_neg hv]
  cases h with
  | @token _ t ts us ht h =>
    by_cases hmatch : t.kind = kind
    · rw [run_expect_of_kind hmatch, run_expect_of_kind hmatch]
      exact .ok t h
    · exact .refuse_token _ ht h (hrefuse hmatch)
  | newline ht hu hnear h =>
    refine .refuse_newline (Rejection.saysSame_mismatch kind ht hu) ht hu hnear h ?_ ?_
    · exact hrefuse (fun heq => hkind (heq.symm.trans ht)) _
    · exact hrefuse (fun heq => hkind (heq.symm.trans hu)) _

/-! ## Expressions -/

theorem agree_input (h : Alike near true ts us) :
    Agree near true (input.run (t :: ts)) (input.run (t :: us)) := by
  rw [run_input, run_input]
  refine (agree_expect (by decide) h).bind fun _ _ _ _ _ h => ?_
  refine (agree_expect (by decide) h).bind fun _ _ _ _ _ h => ?_
  exact (agree_expect (by decide) h).bind fun _ _ _ _ _ h => .ok _ h

theorem agree_leaf (ht : t.kind = .ident ∨ t.kind = .number) (h : Alike near true ts us) :
    Agree near true (leaf.run (t :: ts)) (leaf.run (t :: us)) := by
  rcases ht with ht | ht
  · -- the token behind a word tells whether it is a request for input
    rw [run_leaf_ident ht, run_leaf_ident ht, h.head?_kind]
    split
    · exact agree_input h
    · exact .ok _ h
  · by_cases hn : ∃ n, t.value = some (.int n)
    · obtain ⟨n, hn⟩ := hn
      rw [run_leaf_number ht hn, run_leaf_number ht hn]
      exact .ok _ h
    · rw [run_leaf_malformed ht hn, run_leaf_malformed ht hn]
      exact .error (.refl _) h

theorem agree_primary {inner : Parser Expr}
    (hinner : ∀ ts us, Alike near true ts us → Agree near true (inner.run ts) (inner.run us))
    (h : Alike near true ts us) :
    Agree near true ((primary inner).run ts) ((primary inner).run us) := by
  cases h with
  | @token _ t ts us ht h =>
    by_cases hopen : t.kind = .lparen
    · rw [run_primary_parens hopen, run_primary_parens hopen]
      refine (hinner ts us h).bind fun e _ _ _ _ h => ?_
      exact (agree_expect (by decide) h).bind fun _ _ _ _ _ h => .ok e h
    · by_cases hleaf : t.kind = .ident ∨ t.kind = .number
      · rw [run_primary_leaf hleaf, run_primary_leaf hleaf]
        exact agree_leaf hleaf h
      · exact .refuse_token _ ht h fun vs =>
          run_primary_unexpected hopen (fun hk => hleaf (.inl hk)) fun hk => hleaf (.inr hk)
  | newline ht hu hnear h =>
    have hrefuse {v : Token} (hv : v.kind = .newline) (vs : List Token) :
        (primary inner).run (v :: vs) =
          .error (.cause (.unexpected .expression v)) (v :: vs) := by
      apply run_primary_unexpected <;> simp [hv]
    exact .refuse_newline (Rejection.saysSame_unexpected (by decide) ht hu) ht hu hnear h
      (hrefuse ht _) (hrefuse hu _)

theorem agree_allOperators {operand : Int → Parser Expr} (hoperand : ∀ m, Orderly (operand m))
    (hagree : ∀ m ts us, Alike near true ts us →
      Agree near true ((operand m).run ts) ((operand m).run us))
    (left : Expr) (h : Alike near true ts us) :
    Agree near true ((allOperators operand m left).run ts)
      ((allOperators operand m left).run us) := by
  induction hlen : ts.length using Nat.strongRecOn generalizing ts us left with
  | _ len ih =>
    cases h with
    | @token _ t ts us ht h =>
      rcases operators_verdict m t with hstop | ⟨o, b, hop, hb, hm⟩ | ⟨r, -, hrun⟩
      · rw [run_allOperators_of_stops (hstop ts), run_allOperators_of_stops (hstop us)]
        exact .ok left (.token ht h)
      · rw [run_allOperators_operator hoperand hop hb hm,
          run_allOperators_operator hoperand hop hb hm]
        refine (hagree b.right ts us h).bind fun right ts' us' hright _ h' => ?_
        have hle := (hoperand b.right).length_le hright
        rw [List.length_cons] at hlen
        exact ih ts'.length (by omega) (left.join o right) h' rfl
      · exact .refuse_token r ht h fun vs => hrun operand t vs left vs
    | newline ht hu hnear h =>
      have hstop {v : Token} (hv : v.kind = .newline) (vs : List Token) : Stops m (v :: vs) := .inl hv
      rw [run_allOperators_of_stops (hstop ht _), run_allOperators_of_stops (hstop hu _)]
      exact .ok left (.newline ht hu hnear h)

/-- **An expression is read without regard to newlines.** -/
theorem agree_expression (n : Nat) (m : Int) (h : Alike near true ts us) :
    Agree near true ((expression n m).run ts) ((expression n m).run us) := by
  induction n generalizing m ts us with
  | zero => exact .error (.refl _) h
  | succ n ih =>
    refine (agree_primary (fun _ _ => ih 0) h).bind fun left _ _ _ _ h => ?_
    exact agree_allOperators (orderly_expression n) (fun m _ _ => ih m) left h

/-! ## Statements and programs -/

theorem agree_print (ht : t.isWord "print") (h : Alike near true ts us) :
    Agree near true ((statement n).run (t :: ts)) ((statement n).run (t :: us)) := by
  rw [run_statement_print ht, run_statement_print ht, run_print, run_print]
  refine (agree_expect (by decide) h).bind fun _ _ _ _ _ h => ?_
  refine (agree_expression n 0 h).bind fun _ _ _ _ _ h => ?_
  exact (agree_expect (by decide) h).bind fun _ _ _ _ _ h => .ok _ h

theorem agree_assignment (ht : t.kind ≠ .newline) (h : Alike near true ts us) :
    Agree near true ((assignment n).run (t :: ts)) ((assignment n).run (t :: us)) := by
  by_cases hident : t.kind = .ident
  · cases h with
    | @token _ u ts us hu h =>
      by_cases hassign : u.IsOperator .assign
      · rw [run_assignment_assign hident hassign, run_assignment_assign hident hassign]
        exact (agree_expression n 0 h).bind fun _ _ _ _ _ h => .ok _ h
      · by_cases hadd : u.IsOperator .addAssign
        · rw [run_assignment_addAssign hident hadd, run_assignment_addAssign hident hadd]
          exact (agree_expression n 0 h).bind fun _ _ _ _ _ h => .ok _ h
        · rw [run_assignment_unexpected hident hassign hadd,
            run_assignment_unexpected hident hassign hadd]
          exact .error (.refl _) (.token hu h)
    | newline hu hv hnear h =>
      have hnone {v : Token} (hv : v.kind = .newline) (o : Operator) : ¬ v.IsOperator o := by
        rintro ⟨hop, -⟩
        rw [hv] at hop
        cases hop
      rw [run_assignment_unexpected hident (hnone hu _) (hnone hu _),
        run_assignment_unexpected hident (hnone hv _) (hnone hv _)]
      exact .error (Rejection.saysSame_unexpected (by decide) hu hv) (.newline hu hv hnear h)
  · exact .refuse_token _ ht h fun _ => run_assignment_not_ident hident

/-- **A statement is read without regard to the newline that ends it.** -/
theorem agree_statement (ht : t.kind ≠ .newline) (h : Alike near true ts us) :
    Agree near true ((statement n).run (t :: ts)) ((statement n).run (t :: us)) := by
  by_cases hpass : t.isWord "pass"
  · rw [run_statement_pass hpass, run_statement_pass hpass]
    exact .ok _ h
  · by_cases hprint : t.isWord "print"
    · exact agree_print hprint h
    · rw [run_statement_assignment hpass hprint, run_statement_assignment hpass hprint]
      exact agree_assignment ht h

/-- **Statements are read without regard to the newlines between them.** -/
theorem agree_allStatements (h : Alike near lineOpen ts us) :
    Agree near false ((allStatements n).run ts) ((allStatements n).run us) := by
  -- a newline more in the second list leaves the first as it is, so the lengths are added
  induction hlen : ts.length + us.length using Nat.strongRecOn generalizing lineOpen ts us with
  | _ len ih =>
    cases h with
    | nil => exact .ok [] .nil
    | @token _ t ts us ht h =>
      rw [run_allStatements_statement ht, run_allStatements_statement ht]
      refine (agree_statement ht h).bind fun s ts' us' hs hs' h' => ?_
      have hlt := length_lt_of_run_statement hs
      have hlt' := length_lt_of_run_statement hs'
      exact (ih _ (by omega) h' rfl).bind fun _ _ _ _ _ h => .ok _ h
    | newline ht hu hnear h =>
      rw [run_allStatements_newline ht, run_allStatements_newline hu]
      refine ih _ ?_ h rfl
      simp only [List.length_cons] at hlen
      omega
    | extra hu h =>
      rw [run_allStatements_newline hu]
      refine ih _ ?_ h rfl
      simp only [List.length_cons] at hlen
      omega

theorem agree_program (h : Alike near false ts us) :
    Agree near false ((program n).run ts) ((program n).run us) := by
  rw [run_program, run_program]
  exact (agree_allStatements h).bind fun _ _ _ _ _ h => .ok _ h

/-! ## Refusals -/

/-- The token at which a reader stops when it refuses the tokens. -/
def refused? (p : Parser α) (ts : List Token) : Option Token :=
  match p.run ts with
  | .ok _ _ => none
  | .error _ rest => rest.head?

/-- A refusal points at the token where the reader stopped. -/
theorem onTokens_of_refused (hp : Orderly p) {c : GrammarCause}
    (h : p.run ts = .error (.cause c) (t :: us)) :
    p.refused? ts = some t ∧ p.onTokens ts = .error (.diagnostic ⟨.grammar c, t.span⟩) := by
  obtain ⟨ws, rfl⟩ : t :: us <:+ ts := by
    have hsuffix := (hp ts).suffix
    rwa [h] at hsuffix
  have hlen : (ws ++ t :: us).length - (t :: us).length = ws.length := by
    rw [List.length_append, Nat.add_sub_cancel]
  constructor
  · rw [refused?, h]
    rfl
  · rw [onTokens_of_cause h, hlen, here_append]

end Parser

/-- Two tokens that are the same, or newlines that are `near`. -/
def Token.Matches (near : Token → Token → Prop) (t u : Token) : Prop :=
  t.kind ≠ .newline ∧ u = t ∨ t.kind = .newline ∧ near t u

theorem Alike.exists_matches (h : Alike near true ts us) :
    ∃ t ts' u us', ts = t :: ts' ∧ us = u :: us' ∧ t.Matches near u := by
  cases h with
  | token ht _ => exact ⟨_, _, _, _, rfl, rfl, .inl ⟨ht, rfl⟩⟩
  | newline ht _ hnear _ => exact ⟨_, _, _, _, rfl, rfl, .inr ⟨ht, hnear⟩⟩

/-- **Tokens that are alike are the same program, or are refused alike**: in the same words, at tokens
that match. -/
theorem Program.ofTokens_alike (hwf : ∀ t ∈ ts, t.IsWellFormed) (h : Alike near false ts us) :
    (∃ p, Program.ofTokens ts = .ok p ∧ Program.ofTokens us = .ok p) ∨
      ∃ d d' t u, Program.ofTokens ts = .error (.diagnostic d) ∧
        Program.ofTokens us = .error (.diagnostic d') ∧
        (Parser.program nestingLimit).refused? ts = some t ∧ t.Matches near u ∧ d.span = t.span ∧
        d'.report = { d.report with span := u.span } := by
  have horderly := Parser.orderly_program nestingLimit
  have hagree := Parser.agree_program (n := nestingLimit) h
  rw [Program.ofTokens, Program.ofTokens]
  generalize hts : (Parser.program nestingLimit).run ts = r,
    hus : (Parser.program nestingLimit).run us = r' at hagree
  cases hagree with
  | ok p _ => exact .inl ⟨p, Parser.onTokens_of_ok hts, Parser.onTokens_of_ok hus⟩
  | @error r r' rest rest' hr h =>
    obtain ⟨t, rest, u, rest', rfl, rfl, hmatches⟩ := h.exists_matches
    cases r with
    | malformed => exact absurd hts ((horderly ts).cause hwf _)
    | cause c =>
      cases r' with
      | malformed => exact absurd hr id
      | cause c' =>
        obtain ⟨hkind, hmessage, hhint⟩ := hr
        obtain ⟨hrefused, hd⟩ := Parser.onTokens_of_refused horderly hts
        obtain ⟨-, hd'⟩ := Parser.onTokens_of_refused horderly hus
        refine .inr ⟨_, _, t, u, hd, hd', hrefused, hmatches, rfl, ?_⟩
        simp only [Diagnostic.report, Cause.kind, Cause.message, Cause.hint, hkind, hmessage, hhint]

end Reckon
