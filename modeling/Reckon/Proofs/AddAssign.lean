import Reckon.Proofs.Choice

/-!
# Adding to a variable

The line `x += e` is short for `x = x + (e)`. In the one the reader builds the sum itself, from an
expression that goes to the end of the line; in the other it finds the same words as the right operand
of an operator, within parentheses, and two expressions deeper. Still both have the same tree, their
places apart, and so they do the same.

* `Layout.exists_of_scan` finds the words of a text of one line that has no comment. Then they can be
  set out again within other texts.
* `Phrase.exists_of_payload` reads the same words elsewhere: the tree is the same, and as deep.
* `Program.ofSource_of_assignment` reads a text in which an assignment is set out.
-/

namespace Reckon

open Grammar Lexer

/-! ## Words of a line -/

/-- Without comments and line feeds, a text that has tokens is made of words and blanks. -/
theorem Layout.exists_free {cs : List Char} {loc : Loc} {lineOpen : Bool} {ts : List Token}
    (h : scan loc lineOpen [] cs = .ok ts) (hhash : '#' ∉ cs) (hfeed : '\n' ∉ cs)
    (before : Option Word) :
    ∃ ws : List Word, (∀ w ∈ ws, w.isSpelled ∧ w ≠ .newline) ∧
      Layout (fun _ _ => True) before ws cs ∧ ws.map Word.payload <+: ts.map Token.payload := by
  induction hlen : cs.length using Nat.strongRecOn generalizing loc lineOpen cs ts before with
  | _ len ih =>
    cases cs with
    | nil => exact ⟨[], List.forall_mem_nil _, .empty, List.nil_prefix⟩
    | cons c cs =>
      obtain ⟨piece, width, us, hcut, hus, rfl⟩ := exists_of_scan_cons h
      rw [List.mem_cons, not_or] at hhash hfeed
      rw [List.length_cons] at hlen
      cases cut_isPiece hcut with
      | blank hc =>
        have hgap : IsGap [c] := by
          refine List.forall_mem_singleton.2 ?_
          rcases hc with hc | hc | ⟨-, hhead⟩
          · exact .inl hc
          · exact .inr hc
          · exact absurd (List.mem_of_mem_head? hhead) hfeed.2
        obtain ⟨ws, hws, hlayout, hpayload⟩ :=
          ih cs.length (by omega) hus hhash.2 hfeed.2 before rfl
        exact ⟨ws, hws, hlayout.precede hgap nofun, hpayload⟩
      | comment hc => exact absurd hc.symm hhash.1
      | word w ds cs hw htext hend =>
        rw [List.take_left, List.drop_left] at hus
        rw [List.length_append] at hlen
        rw [List.mem_append, not_or] at hhash hfeed
        obtain ⟨ws, hws, hlayout, hpayload⟩ :=
          ih cs.length (by omega) hus hhash.2.2 hfeed.2.2 (some w) rfl
        have hne : w ≠ .newline := by
          rintro rfl
          cases htext
          exact hfeed.1 rfl
        refine ⟨w :: ws, List.forall_mem_cons.2 ⟨⟨hw, hne⟩, hws⟩, ?_, ?_⟩
        · rw [← List.cons_append, ← htext]
          exact .glued (fun _ _ => trivial) hlayout
        · exact List.cons_prefix_cons.2 ⟨rfl, hpayload⟩

/-- **The words of a line can be read off it**, and no two of them merge. -/
theorem Layout.exists_of_scan {cs : List Char} {loc : Loc} {lineOpen : Bool} {ts : List Token}
    (h : scan loc lineOpen [] cs = .ok ts) (hhash : '#' ∉ cs) (hfeed : '\n' ∉ cs) :
    ∃ ws : List Word, (∀ w ∈ ws, w.isSpelled ∧ w ≠ .newline) ∧
      Layout (fun v w => ¬ v.Merges w) none ws cs := by
  obtain ⟨ws, hws, hlayout, hpayload⟩ := Layout.exists_free h hhash hfeed none
  exact ⟨ws, hws, hlayout.of_scan (fun w hw => (hws w hw).1) nofun h hpayload⟩

/-! ## The same words elsewhere -/

/-- **Tokens that say the same are the same phrase**, as deep and with the same tree, its places
apart. -/
theorem Grammar.Phrase.exists_of_payload {level : Level} {d : Nat} {us : List Token} {e : Expr}
    (h : Phrase level d us e) {ts : List Token} (hts : ts.map Token.payload = us.map Token.payload) :
    ∃ e', Phrase level d ts e' ∧ e'.bare = e.bare := by
  have hoperator {t u : Token} {o : Operator} (ht : t.payload = u.payload) (hu : u.IsOperator o) :
      t.IsOperator o :=
    ⟨(Token.payload_eq ht).1.trans hu.1, (Token.payload_eq ht).2.2.trans hu.2⟩
  have hkind {t u : Token} {kind : TokenKind} (ht : t.payload = u.payload) (hu : u.kind = kind) :
      t.kind = kind := (Token.payload_eq ht).1.trans hu
  have hlexeme {t u : Token} (ht : t.payload = u.payload) : t.lexeme = u.lexeme :=
    (Token.payload_eq ht).2.1
  have hjoin {l l' r r' : Expr} {o : Operator} (hl : l'.bare = l.bare) (hr : r'.bare = r.bare) :
      (l'.join o r').bare = (l.join o r).bare := by
    rw [Expr.bare_join, Expr.bare_join, hl, hr]
  induction h generalizing ts with
  | sum _ hu ho _ ihl ihr =>
    obtain ⟨ts₁, t, ts₂, rfl, hts₁, ht, hts₂⟩ := exists_split hts
    obtain ⟨l, hl, hlbare⟩ := ihl hts₁
    obtain ⟨r, hr, hrbare⟩ := ihr hts₂
    exact ⟨_, .sum hl (hoperator ht hu) ho hr, hjoin hlbare hrbare⟩
  | product _ hu ho _ ihl ihr =>
    obtain ⟨ts₁, t, ts₂, rfl, hts₁, ht, hts₂⟩ := exists_split hts
    obtain ⟨l, hl, hlbare⟩ := ihl hts₁
    obtain ⟨r, hr, hrbare⟩ := ihr hts₂
    exact ⟨_, .product hl (hoperator ht hu) ho hr, hjoin hlbare hrbare⟩
  | power _ hu _ ihl ihr =>
    obtain ⟨ts₁, t, ts₂, rfl, hts₁, ht, hts₂⟩ := exists_split hts
    obtain ⟨l, hl, hlbare⟩ := ihl hts₁
    obtain ⟨r, hr, hrbare⟩ := ihr hts₂
    exact ⟨_, .power hl (hoperator ht hu) hr, hjoin hlbare hrbare⟩
  | ofProduct _ ih =>
    obtain ⟨e, he, hbare⟩ := ih hts
    exact ⟨e, .ofProduct he, hbare⟩
  | ofPower _ ih =>
    obtain ⟨e, he, hbare⟩ := ih hts
    exact ⟨e, .ofPower he, hbare⟩
  | ofPrimary _ ih =>
    obtain ⟨e, he, hbare⟩ := ih hts
    exact ⟨e, .ofPrimary he, hbare⟩
  | parens hopen _ hclose ih =>
    obtain ⟨t, ts', rfl, ht, hts'⟩ := List.map_eq_cons_iff.1 hts
    obtain ⟨ts₁, u, vs, rfl, hts₁, hu, hvs⟩ := exists_split hts'
    obtain rfl := List.map_eq_nil_iff.1 hvs
    obtain ⟨e, he, hbare⟩ := ih hts₁
    exact ⟨e, .parens (hkind ht hopen) he (hkind hu hclose), hbare⟩
  | number hnumber hn =>
    obtain ⟨t, rfl, ht⟩ := List.map_eq_singleton_iff.1 hts
    exact ⟨_, .number (hkind ht hnumber) ((Token.payload_eq ht).2.2.trans hn), rfl⟩
  | name hident =>
    obtain ⟨t, rfl, ht⟩ := List.map_eq_singleton_iff.1 hts
    exact ⟨_, .name (hkind ht hident), by rw [Expr.bare, Expr.bare, hlexeme ht]⟩
  | input hword hopen hstring hclose =>
    obtain ⟨t, ts, rfl, ht, hts⟩ := List.map_eq_cons_iff.1 hts
    obtain ⟨a, ts, rfl, ha, hts⟩ := List.map_eq_cons_iff.1 hts
    obtain ⟨s, ts, rfl, hs, hts⟩ := List.map_eq_cons_iff.1 hts
    obtain ⟨u, rfl, hu⟩ := List.map_eq_singleton_iff.1 hts
    obtain ⟨hident, htext⟩ := Token.isWord_iff.1 hword
    have hword' : t.isWord "input" :=
      Token.isWord_iff.2 ⟨hkind ht hident, (hlexeme ht).trans htext⟩
    exact ⟨_, .input hword' (hkind ha hopen) (hkind hs hstring) (hkind hu hclose),
      by rw [Expr.bare, Expr.bare, hlexeme hs]⟩

/-- The words are an expression that is nested `d` deep, and its tree is `e`, the places apart. -/
def AreExpression (d : Nat) (e : Expr) (ws : List Word) : Prop :=
  ∀ ts : List Token, ts.map Token.payload = ws.map Word.payload →
    ∃ e', Phrase .sum d ts e' ∧ e'.bare = e.bare

/-- The words are an assignment that is nested `d` deep, and its tree is `s`, the places apart. -/
def AreAssignment (d : Nat) (s : Stmt) (ws : List Word) : Prop :=
  ∀ ts : List Token, ts.map Token.payload = ws.map Word.payload →
    ∃ s', Assignment d ts s' ∧ s'.bare = s.bare

theorem kind_ne_newline_of_payload {ts : List Token} {ws : List Word}
    (hts : ts.map Token.payload = ws.map Word.payload) (hws : ∀ w ∈ ws, w ≠ .newline) :
    ∀ t ∈ ts, t.kind ≠ .newline := by
  intro t ht hkind
  have hmem : t.payload ∈ ws.map Word.payload := hts ▸ List.mem_map_of_mem ht
  obtain ⟨w, hw, hpayload⟩ := List.mem_map.1 hmem
  apply hws w hw
  rw [← Word.payload_kind_eq_newline_iff, hpayload]
  exact hkind

/-- Before a newline, or the end, there is only one way to cut off tokens that have no newline. -/
theorem eq_of_append_isEnd {ts us vs ws : List Token} (hts : ∀ t ∈ ts, t.kind ≠ .newline)
    (hus : ∀ u ∈ us, u.kind ≠ .newline) (hvs : Parser.IsEnd vs) (hws : Parser.IsEnd ws)
    (h : ts ++ vs = us ++ ws) : ts = us := by
  have htake {xs ys : List Token} (hxs : ∀ x ∈ xs, x.kind ≠ .newline) (hys : Parser.IsEnd ys) :
      (xs ++ ys).takeWhile (fun t => decide (t.kind ≠ .newline)) = xs := by
    apply takeWhile_append_of_head
    · simpa using hxs
    · rcases hys with rfl | ⟨y, hy, rfl⟩
      · simp
      · simpa using hy
  rw [← htake hts hvs, h, htake hus hws]

/-- **The words of an expression can be set out elsewhere**, if it is a text of one line. -/
theorem Expr.exists_words {text : String} {e : Expr} (h : Expr.ofSource text = .ok e)
    (hhash : '#' ∉ text.toList) (hfeed : '\n' ∉ text.toList) :
    ∃ d ws, (∀ w ∈ ws, w.isSpelled) ∧ Layout (fun v w => ¬ v.Merges w) none ws text.toList ∧
      AreExpression d e ws := by
  cases htokens : tokenize text with
  | error blame =>
    rw [Expr.ofSource, readTokens_of_error htokens] at h
    cases h
  | ok all =>
    rw [Expr.ofSource_of_tokenize htokens, Expr.ofTokens_eq_ok_iff] at h
    obtain ⟨d, ts, rest, hall, hphrase, hrest, -⟩ := h
    obtain ⟨ws, hws, hlayout⟩ := Layout.exists_of_scan htokens hhash hfeed
    have hspelled : ∀ w ∈ ws, w.isSpelled := fun w hw => (hws w hw).1
    obtain ⟨us, rest', hscan, hus, hrest'⟩ := hlayout.exists_tokens hspelled
    have husne : ∀ u ∈ us, u.kind ≠ .newline :=
      kind_ne_newline_of_payload hus fun w hw => (hws w hw).2
    have hsplit : us ++ rest' = ts ++ rest := by
      rw [← hall]
      exact Except.ok.inj (hscan.symm.trans htokens)
    obtain rfl := eq_of_append_isEnd husne hphrase.kind_ne_newline hrest' hrest hsplit
    refine ⟨d, ws, hspelled, hlayout, fun vs hvs => hphrase.exists_of_payload ?_⟩
    rw [hvs, hus]

section Sums

variable {d : Nat} {e : Expr} {ws : List Word} {x : String}

/-- The sum of a variable and an expression in parentheses. -/
theorem AreExpression.addedTo (h : AreExpression d e ws) (x : String) :
    AreExpression (d + 2) (.binary default (.name default x) .plus e)
      (.ident x :: .op .plus :: .lparen :: (ws ++ [.rparen])) := by
  intro ts hts
  obtain ⟨t, ts, rfl, ht, hts⟩ := List.map_eq_cons_iff.1 hts
  obtain ⟨u, ts, rfl, hu, hts⟩ := List.map_eq_cons_iff.1 hts
  obtain ⟨a, ts, rfl, ha, hts⟩ := List.map_eq_cons_iff.1 hts
  obtain ⟨ts₁, b, rest, rfl, hts₁, hb, hrest⟩ := exists_split hts
  obtain rfl := List.map_eq_nil_iff.1 hrest
  obtain ⟨e', he', hbare⟩ := h ts₁ hts₁
  obtain ⟨hident, hlexeme⟩ := Token.ident_of_payload ht
  have hname : Phrase .sum 1 [t] (.name t.span t.lexeme) :=
    .ofProduct (.ofPower (.ofPrimary (.name hident)))
  have hparens : Phrase .product (d + 1) (a :: (ts₁ ++ [b])) e' :=
    .ofPower (.ofPrimary (.parens (Token.payload_eq ha).1 he' (Token.payload_eq hb).1))
  have hsum := Phrase.sum hname (Token.isOperator_of_payload hu) (.inl rfl) hparens
  rw [Nat.max_eq_right (by omega)] at hsum
  refine ⟨_, hsum, ?_⟩
  rw [Expr.bare_join, hbare, Expr.bare, hlexeme]
  rfl

theorem AreExpression.assignment (h : AreExpression d e ws) (hpass : x ≠ "pass")
    (hprint : x ≠ "print") :
    AreAssignment d (.assign default x e) (.ident x :: .op .assign :: ws) := by
  intro ts hts
  obtain ⟨t, ts, rfl, ht, hts⟩ := List.map_eq_cons_iff.1 hts
  obtain ⟨u, ts, rfl, hu, hts⟩ := List.map_eq_cons_iff.1 hts
  obtain ⟨e', he', hbare⟩ := h ts hts
  obtain ⟨hident, rfl⟩ := Token.ident_of_payload ht
  refine ⟨_, .assign hident hpass hprint (Token.isOperator_of_payload hu) he', ?_⟩
  rw [Stmt.bare, Stmt.bare, hbare]

theorem AreExpression.addition (h : AreExpression d e ws) (hpass : x ≠ "pass")
    (hprint : x ≠ "print") :
    AreAssignment d (.assign default x (.binary default (.name default x) .plus e))
      (.ident x :: .op .addAssign :: ws) := by
  intro ts hts
  obtain ⟨t, ts, rfl, ht, hts⟩ := List.map_eq_cons_iff.1 hts
  obtain ⟨u, ts, rfl, hu, hts⟩ := List.map_eq_cons_iff.1 hts
  obtain ⟨e', he', hbare⟩ := h ts hts
  obtain ⟨hident, rfl⟩ := Token.ident_of_payload ht
  refine ⟨_, .addAssign hident hpass hprint (Token.isOperator_of_payload hu) he', ?_⟩
  rw [Stmt.bare, Stmt.bare, Expr.bare_join, hbare]
  rfl

end Sums

/-! ## Programs -/

/-- **A text in which an assignment is set out** is read as the assignment, unless it is nested beyond
the limit. -/
theorem Program.ofSource_of_assignment {text : String} {ws : List Word} {d : Nat} {s : Stmt}
    (h : AreAssignment d s ws) (hws : ∀ w ∈ ws, w.isSpelled)
    (hlayout : Layout (fun v w => ¬ v.Merges w) none ws text.toList) :
    (d ≤ nestingLimit → ∃ p, Program.ofSource text = .ok p ∧
      p.main.statements.map Stmt.bare = [s.bare]) ∧
    (nestingLimit < d → NestedTooDeeply (Program.ofSource text)) := by
  obtain ⟨ts, us, hscan, hts, hus⟩ := hlayout.exists_tokens hws
  obtain ⟨s', hs', hbare⟩ := h ts hts
  have hlines : Lines d (ts ++ us) [s'] := Lines.append_end (.last (.assignment hs')) hus
  rw [Program.ofSource_of_tokenize hscan]
  constructor
  · intro hd
    refine ⟨⟨⟨[s']⟩⟩, Program.ofTokens_eq_ok_iff.2 ⟨d, hlines, hd⟩, ?_⟩
    rw [List.map_singleton, hbare]
  · exact Program.ofTokens_of_limit_lt hlines

theorem Expr.bare_eq_relocate (e : Expr) : e.bare = e.relocate fun _ => default := by
  induction e with
  | binary _ _ _ _ ihl ihr => rw [Expr.bare, Expr.relocate, ihl, ihr]
  | name | number | input | misplaced => rfl

theorem Stmt.bare_eq_relocate (s : Stmt) : s.bare = s.relocate fun _ => default := by
  cases s with
  | assign | print => rw [Stmt.bare, Stmt.relocate, Expr.bare_eq_relocate]
  | pass | misplaced => rfl

/-- Programs with the same tree do the same, wherever its nodes stand. -/
theorem runSource_sameButForPlace {text text' : String} {p p' : Program}
    (h : Program.ofSource text = .ok p) (h' : Program.ofSource text' = .ok p')
    (hbare : p.main.statements.map Stmt.bare = p'.main.statements.map Stmt.bare) (s : Session) :
    SameButForPlace ((runSource text).run s) ((runSource text').run s) := by
  rw [runSource_of_program h, runSource_of_program h']
  refine Stmts.run_sameButForPlace (g := fun _ => default) ?_ s
  rwa [← funext Stmt.bare_eq_relocate]

/-! ## Two ways to write it -/

/-- The line that adds an expression to a variable. -/
def additionLine (ident text : String) : String := ident ++ " += " ++ text

/-- The line that assigns to a variable the sum of its value and an expression. -/
def sumLine (ident text : String) : String := ident ++ " = " ++ ident ++ " + (" ++ text ++ ")"

theorem layout_additionLine {ws : List Word} {text : String}
    (h : Layout (fun v w => ¬ v.Merges w) none ws text.toList) (x : String) :
    Layout (fun v w => ¬ v.Merges w) none (.ident x :: .op .addAssign :: ws)
      (additionLine x text).toList := by
  have htext : (additionLine x text).toList =
      x.toList ++ ' ' :: ("+=".toList ++ ([' '] ++ text.toList)) := by
    rw [additionLine]
    simp only [String.toList_append, List.append_assoc]
    rfl
  rw [htext]
  exact .glued nofun (.spaced (h.precede isGap_space nofun))

theorem layout_sumLine {ws : List Word} {text : String}
    (h : Layout (fun v w => ¬ v.Merges w) none ws text.toList) (x : String) :
    Layout (fun v w => ¬ v.Merges w) none
      (.ident x :: .op .assign :: .ident x :: .op .plus :: .lparen :: (ws ++ [.rparen]))
      (sumLine x text).toList := by
  have htext : (sumLine x text).toList = x.toList ++ ' ' :: ("=".toList ++ ' ' :: (x.toList ++
      ' ' :: ("+".toList ++ ([' '] ++ '(' :: (text.toList ++ [')']))))) := by
    rw [sumLine]
    simp only [String.toList_append, List.append_assoc]
    rfl
  rw [htext]
  exact .glued nofun (.spaced (.spaced (.spaced ((h.parens none).precede isGap_space nofun))))

/-- **Adding to a variable is assigning the sum.** Let `x` be a name that may be assigned to, and let a
text of one line be read as the expression `e`. Then `x += e` and `x = x + (e)` are read as the same
program, their places apart: the assignment of a sum to `x`, as long as the longer of the two is not
nested beyond the limit. And from every session both come to the same end, with the same variables, the
same output and the same input left over, and if they fail then for the same reason. -/
theorem Program.ofSource_additionLine (x text : String) (e : Expr) (hname : isName x)
    (hpass : x ≠ "pass") (hprint : x ≠ "print") (hhash : '#' ∉ text.toList)
    (hfeed : '\n' ∉ text.toList) (he : Expr.ofSource text = .ok e)
    (hdeep : ¬ NestedTooDeeply (Program.ofSource (sumLine x text))) :
    ∃ p p', Program.ofSource (additionLine x text) = .ok p ∧
      Program.ofSource (sumLine x text) = .ok p' ∧
      p.main.statements.map Stmt.bare =
        [.assign default x (.binary default (.name default x) .plus e.bare)] ∧
      p.main.statements.map Stmt.bare = p'.main.statements.map Stmt.bare ∧
      ∀ s, SameButForPlace ((runSource (additionLine x text)).run s)
        ((runSource (sumLine x text)).run s) := by
  obtain ⟨d, ws, hws, hlayout, hexpr⟩ := Expr.exists_words he hhash hfeed
  have hspelled : ∀ w ∈ Word.ident x :: .op .addAssign :: ws, w.isSpelled :=
    List.forall_mem_cons.2 ⟨hname, List.forall_mem_cons.2 ⟨rfl, hws⟩⟩
  have hspelled' : ∀ w ∈ Word.ident x :: .op .assign :: .ident x :: .op .plus :: .lparen ::
      (ws ++ [.rparen]), w.isSpelled := by
    simp only [List.forall_mem_cons, List.forall_mem_append]
    exact ⟨hname, rfl, hname, rfl, rfl, hws, rfl, List.forall_mem_nil _⟩
  obtain ⟨hread, -⟩ := Program.ofSource_of_assignment (hexpr.addition hpass hprint) hspelled
    (layout_additionLine hlayout x)
  obtain ⟨hread', hlimit⟩ := Program.ofSource_of_assignment
    ((hexpr.addedTo x).assignment hpass hprint) hspelled' (layout_sumLine hlayout x)
  have hd : d + 2 ≤ nestingLimit := Nat.le_of_not_lt fun hlt => hdeep (hlimit hlt)
  obtain ⟨p, hp, hbare⟩ := hread (by omega)
  obtain ⟨p', hp', hbare'⟩ := hread' hd
  have hsame := hbare.trans hbare'.symm
  exact ⟨p, p', hp, hp', hbare, hsame, runSource_sameButForPlace hp hp' hsame⟩

/-- The variable `input` is no request for input, and the expression is closed by parentheses of its
own at first sight only. -/
theorem Program.ofSource_additionLine_input :
    let x := "input"
    let text := "(7) // input(\"n\")\t- (pass)"
    isName x ∧ x ≠ "pass" ∧ x ≠ "print" ∧ '#' ∉ text.toList ∧ '\n' ∉ text.toList ∧
      ¬ NestedTooDeeply (Program.ofSource (sumLine x text)) ∧
      ∃ e, Expr.ofSource text = .ok e ∧
        ∃ p p', Program.ofSource (additionLine x text) = .ok p ∧
          Program.ofSource (sumLine x text) = .ok p' ∧
          p.main.statements.map Stmt.bare =
            [.assign default x (.binary default (.name default x) .plus e.bare)] ∧
          p.main.statements.map Stmt.bare = p'.main.statements.map Stmt.bare ∧
          ∀ s, SameButForPlace ((runSource (additionLine x text)).run s)
            ((runSource (sumLine x text)).run s) := by
  intro x text
  have hhash : '#' ∉ text.toList := by decide
  have hfeed : '\n' ∉ text.toList := by decide
  have hdeep : ¬ NestedTooDeeply (Program.ofSource (sumLine x text)) := by
    have hok : (Program.ofSource (sumLine x text)).isOk := by decide +kernel
    rintro ⟨span, herr⟩
    rw [herr] at hok
    cases hok
  have hok : (Expr.ofSource text).isOk := by decide +kernel
  cases he : Expr.ofSource text with
  | error blame =>
    rw [he] at hok
    cases hok
  | ok e =>
    exact ⟨by decide, by decide, by decide, hhash, hfeed, hdeep, e, rfl,
      Program.ofSource_additionLine x text e (by decide) (by decide) (by decide) hhash hfeed he hdeep⟩

end Reckon
