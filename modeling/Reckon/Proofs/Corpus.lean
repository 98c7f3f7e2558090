import Reckon.Proofs.Acceptance
import Reckon.Proofs.Lines
import Reckon.Proofs.Samples
import Reckon.Proofs.Writing

/-!
# Samples are programs that run

The text of a sample is read as a program, and the program runs without an error. The text of an
expression puts operands next to operators as they are, so the tree that is read is not the one that
was drawn; but it is made of the same names and numbers, its divisors are the same digits, and it has
as many operators, which is all that the bounds on values need.

* `Term.layout` and `Term.IsTame.arePhrase` lead from the text of an expression to its words and on to
  its tree.
* `ReadAsLine` and `ReadAsProgram` say that a text is read, and what is known of its statements. The
  statements of a sample run smoothly: `Entry.IsTame.readAsLine` for one line and
  `Entries.AreTame.readAsProgram` for all of them, by induction on the lines.
-/

namespace Reckon

open Grammar
open Utterance (texts)

/-! ## From words to trees -/

/-- The words are a phrase of the level, and its tree has the property. -/
def ArePhrase (level : Level) (P : Expr → Prop) (ws : List Word) : Prop :=
  ∀ ts : List Token, ts.map Token.payload = ws.map Word.payload → ∃ d e, Phrase level d ts e ∧ P e

namespace ArePhrase

variable {P : Expr → Prop} {ws : List Word}

/-- A phrase in parentheses holds together. -/
theorem parens (h : ArePhrase .sum P ws) : ArePhrase .primary P (.lparen :: (ws ++ [.rparen])) := by
  intro ts hts
  obtain ⟨t, ts, rfl, ht, hts⟩ := List.map_eq_cons_iff.1 hts
  obtain ⟨ts₁, u, us, rfl, hts₁, hu, hus⟩ := exists_split hts
  obtain rfl := List.map_eq_nil_iff.1 hus
  obtain ⟨d, e, he, hP⟩ := h ts₁ hts₁
  exact ⟨d + 1, e, .parens (Token.payload_eq ht).1 he (Token.payload_eq hu).1, hP⟩

/-- An expression is no deeper than it has words. -/
theorem exists_le {level : Level} {ts : List Token} (h : ArePhrase level P ws)
    (hts : ts.map Token.payload = ws.map Word.payload) :
    ∃ d e, Phrase level d ts e ∧ d ≤ ws.length ∧ P e := by
  obtain ⟨d, e, he, hP⟩ := h ts hts
  have hlength : ts.length = ws.length := by
    rw [← List.length_map, hts, List.length_map]
  exact ⟨d, e, he, hlength ▸ he.depth_le_length, hP⟩

theorem ofPrimary (h : ArePhrase .primary P ws) : ArePhrase .sum P ws := by
  intro ts hts
  obtain ⟨d, e, he, hP⟩ := h ts hts
  exact ⟨d, e, .ofProduct (.ofPower (.ofPrimary he)), hP⟩

end ArePhrase

/-- The digits of a number. -/
theorem isLiteral_toString {n : Nat} (h : n ≤ maxLiteral) : isLiteral (toString n) := by
  rw [Nat.toString_eq_repr, isLiteral, Nat.toList_repr, Nat.ofDigitChars_ten_toDigits]
  simp only [Bool.and_eq_true, decide_eq_true_eq, List.all_eq_true]
  exact ⟨⟨Nat.toDigits_ne_nil, isDigit_of_mem_toDigits n⟩, h⟩

theorem Token.number_of_payload {t : Token} {n : Nat}
    (h : t.payload = (Word.number (toString n)).payload) :
    t.kind = .number ∧ t.value = some (.int n) := by
  obtain ⟨hkind, -, hvalue⟩ := Token.payload_eq h
  rw [Word.payload, Nat.toString_eq_repr, Nat.toList_repr, Nat.ofDigitChars_ten_toDigits] at hvalue
  exact ⟨hkind, hvalue⟩

namespace Corpus

/-- The words of an expression. -/
def Term.words : Term → List Word
  | name ident => [.ident ident]
  | number n => [.number (toString n)]
  | binary false l op r => l.words ++ .op op :: r.words
  | binary true l op r => .lparen :: ((l.words ++ .op op :: r.words) ++ [.rparen])

theorem Term.layout (t : Term) : Layout (fun v w => ¬ v.Merges w) none t.words t.text.toList := by
  induction t with
  | name ident => exact .single (.ident ident)
  | number n => exact .single (.number (toString n))
  | binary parenthesized l op r ihl ihr =>
    have hinner : Layout (fun v w => ¬ v.Merges w) none (l.words ++ .op op :: r.words)
        (l.text.toList ++ ' ' :: (op.symbol.toList ++ ' ' :: r.text.toList)) :=
      ihl.append fun _ => .spaced (ihr.precede Lexer.isGap_space nofun)
    cases parenthesized with
    | false =>
      have htext : (Term.binary false l op r).text.toList =
          l.text.toList ++ ' ' :: (op.symbol.toList ++ ' ' :: r.text.toList) := by
        rw [Term.text]
        simp only [String.toList_append, List.append_assoc]
        rfl
      rw [htext]
      exact hinner
    | true =>
      have htext : (Term.binary true l op r).text.toList =
          '(' :: ((l.text.toList ++ ' ' :: (op.symbol.toList ++ ' ' :: r.text.toList)) ++ [')']) := by
        rw [Term.text]
        simp only [String.toList_append, List.append_assoc, List.cons_append]
        rfl
      rw [htext]
      exact hinner.parens none

variable {names : List String} {t : Term}

theorem Term.IsTame.isSpelled (h : t.IsTame names) (hnames : ∀ ident ∈ names, IsVariable ident) :
    ∀ w ∈ t.words, w.isSpelled := by
  have hbinary {parenthesized : Bool} {l r : Term} {o : Operator} (hl : ∀ w ∈ l.words, w.isSpelled)
      (hr : ∀ w ∈ r.words, w.isSpelled) :
      ∀ w ∈ (Term.binary parenthesized l o r).words, w.isSpelled := by
    have hinner : ∀ w ∈ l.words ++ .op o :: r.words, w.isSpelled :=
      List.forall_mem_append.2 ⟨hl, List.forall_mem_cons.2 ⟨rfl, hr⟩⟩
    cases parenthesized with
    | false => exact hinner
    | true =>
      refine List.forall_mem_cons.2 ⟨rfl, List.forall_mem_append.2 ⟨hinner, ?_⟩⟩
      exact List.forall_mem_singleton.2 rfl
  have hnumber {n : Nat} (hn : n ≤ 99) : ∀ w ∈ (Term.number n).words, w.isSpelled :=
    List.forall_mem_singleton.2 (isLiteral_toString (Nat.le_trans hn (by decide)))
  induction h with
  | name hident => exact List.forall_mem_singleton.2 (hnames _ hident).1
  | number hn => exact hnumber hn
  | sum _ _ _ ihl ihr => exact hbinary ihl ihr
  | scaled ho _ ihl => exact hbinary ihl (hnumber (by obtain ⟨-, hdigit⟩ := ho; omega))

/-- **The text of an expression has a tame tree.** The operators in it are those that were drawn,
though not in the same places. -/
theorem Term.IsTame.arePhrase (h : t.IsTame names) :
    ArePhrase .sum (fun e => e.IsTame names ∧ e.operators = t.operators) t.words := by
  have hbinary {P : Expr → Prop} {parenthesized : Bool} {l r : Term} {o : Operator}
      (hinner : ArePhrase .sum P (l.words ++ .op o :: r.words)) :
      ArePhrase .sum P (Term.binary parenthesized l o r).words := by
    cases parenthesized with
    | false => exact hinner
    | true => exact hinner.parens.ofPrimary
  induction h with
  | @name ident hident =>
    refine ArePhrase.ofPrimary fun ts hts => ?_
    obtain ⟨t, rfl, ht⟩ := List.map_eq_singleton_iff.1 hts
    obtain ⟨hkind, rfl⟩ := Token.ident_of_payload ht
    exact ⟨1, _, .name hkind, .name hident, rfl⟩
  | @number n hn =>
    refine ArePhrase.ofPrimary fun ts hts => ?_
    obtain ⟨t, rfl, ht⟩ := List.map_eq_singleton_iff.1 hts
    obtain ⟨hkind, hvalue⟩ := Token.number_of_payload ht
    exact ⟨1, _, .number hkind hvalue, .number (by omega) (by omega), rfl⟩
  | @sum _ l r o ho _ _ ihl ihr =>
    refine hbinary fun ts hts => ?_
    obtain ⟨ts₁, t, us, rfl, hts₁, ht, hus⟩ := exists_split hts
    obtain ⟨d, left, hleft, hltame, hlcount⟩ := ihl ts₁ hts₁
    obtain ⟨d', right, hright, hrtame, hrcount⟩ := ihr us hus
    obtain ⟨d'', e, he, hetame, hcount⟩ :=
      exists_phrase_sum hleft hltame (Token.isOperator_of_payload ht) ho hright hrtame
    exact ⟨d'', e, he, hetame, by rw [hcount, hlcount, hrcount, Term.operators]⟩
  | @scaled _ l o n ho _ ihl =>
    refine hbinary fun ts hts => ?_
    obtain ⟨ts₁, t, us, rfl, hts₁, ht, hus⟩ := exists_split hts
    obtain ⟨u, rfl, hu⟩ := List.map_eq_singleton_iff.1 hus
    obtain ⟨hkind, hnumber⟩ := Token.number_of_payload hu
    obtain ⟨d, left, hleft, hltame, hlcount⟩ := ihl ts₁ hts₁
    obtain ⟨d', e, he, hetame, hcount⟩ :=
      exists_phrase_scaled hleft hltame (Token.isOperator_of_payload ht) ho hkind hnumber
    exact ⟨d', e, he, hetame, by rw [hcount, hlcount]; rfl⟩

theorem Term.length_words (t : Term) : t.words.length ≤ 4 * t.operators + 1 := by
  induction t with
  | name | number => exact Nat.le_refl 1
  | binary parenthesized l op r ihl ihr =>
    cases parenthesized <;>
    · simp only [Term.words, Term.operators, List.length_append, List.length_cons, List.length_nil]
      omega

end Corpus

/-! ## Lines -/

namespace Grammar

variable {d : Nat} {ts : List Token} {t : Token} {ss : List Stmt}

/-- The tokens are whole lines, and any program may follow them. -/
def Leads (d : Nat) (ts : List Token) (ss : List Stmt) : Prop :=
  ∀ d' us ss', Lines d' us ss' → Lines (max d d') (ts ++ us) (ss ++ ss')

theorem Leads.nil : Leads 0 [] [] := by
  intro d' us ss' h
  rwa [Nat.zero_max]

theorem Line.leads (h : Line d ts ss) (ht : t.kind = .newline) : Leads d (ts ++ [t]) ss := by
  intro d' us ss' hs
  rw [List.append_assoc]
  exact .cons h ht hs

theorem Leads.lines (h : Leads d ts ss) : Lines d ts ss := by
  have hlines := h 0 [] [] (.last .empty)
  rwa [Nat.max_zero, List.append_nil, List.append_nil] at hlines

end Grammar

section Reading

variable {P : List Stmt → Prop} {ws : List Word} {cs ds : List Char}

/-- The text is read as a program, and its statements have the property. -/
def ReadAsProgram (P : List Stmt → Prop) (cs : List Char) : Prop :=
  ∃ ts d ss, Lexer.scan .origin false [] cs = .ok ts ∧ Lines d ts ss ∧ d ≤ nestingLimit ∧ P ss

/-- With a line feed behind it the text is read as the beginning of a program, and its statements have
the property. -/
def ReadAsLine (P : List Stmt → Prop) (cs : List Char) : Prop :=
  ∃ ts d ss, Lexer.scan .origin false [] (cs ++ ['\n']) = .ok ts ∧ Leads d ts ss ∧
    d ≤ nestingLimit ∧ P ss

theorem ReadAsProgram.mono {names names' : List String} {growth growth' : Nat}
    (h : ReadAsProgram (Stmts.RunSmoothly names names' growth) cs) (hle : growth ≤ growth') :
    ReadAsProgram (Stmts.RunSmoothly names names' growth') cs := by
  obtain ⟨ts, d, ss, hscan, hlines, hd, hsmooth⟩ := h
  exact ⟨ts, d, ss, hscan, hlines, hd, hsmooth.mono hle⟩

theorem ReadAsLine.program (h : ReadAsLine P cs) : ReadAsProgram P (cs ++ ['\n']) := by
  obtain ⟨ts, d, ss, hscan, hleads, hd, hP⟩ := h
  exact ⟨ts, d, ss, hscan, hleads.lines, hd, hP⟩

/-- **A line and a program.** Statements that run smoothly may be followed by others that do. -/
theorem ReadAsLine.append {names names' names'' : List String} {growth growth' : Nat}
    (h : ReadAsLine (Stmts.RunSmoothly names names' growth) cs)
    (h' : ReadAsProgram (Stmts.RunSmoothly names' names'' growth') ds) :
    ReadAsProgram (Stmts.RunSmoothly names names'' (growth + growth')) (cs ++ '\n' :: ds) := by
  obtain ⟨ts, d, ss, hscan, hleads, hd, hsmooth⟩ := h
  obtain ⟨us, d', ss', hscan', hlines, hd', hsmooth'⟩ := h'
  have hwhole : Text.IsWholeLines (cs ++ ['\n']) := .inr List.getLast?_concat
  let n : Int := (cs ++ ['\n']).count '\n'
  refine ⟨ts ++ us.map (Token.down n), max d d', ss ++ ss'.map (Stmt.down n), ?_,
    hleads _ _ _ (hlines.down n), Nat.max_le.2 ⟨hd, hd'⟩, hsmooth.append (hsmooth'.down n)⟩
  rw [show cs ++ '\n' :: ds = (cs ++ ['\n']) ++ ds by simp, Lexer.scan_append hwhole, hscan,
    hwhole.origin_after, Lexer.scan_down, hscan']
  rfl

/-- The words are a line, and its statements have the property. -/
def AreLine (P : List Stmt → Prop) (ws : List Word) : Prop :=
  ∀ ts : List Token, ts.map Token.payload = ws.map Word.payload →
    ∃ d ss, Grammar.Line d ts ss ∧ d ≤ nestingLimit ∧ P ss

theorem AreLine.mono {names names' : List String} {growth growth' : Nat}
    (h : AreLine (Stmts.RunSmoothly names names' growth) ws) (hle : growth ≤ growth') :
    AreLine (Stmts.RunSmoothly names names' growth') ws := by
  intro ts hts
  obtain ⟨d, ss, hline, hd, hsmooth⟩ := h ts hts
  exact ⟨d, ss, hline, hd, hsmooth.mono hle⟩

/-- A text in which the words of a line are set out, with a line feed behind it. -/
theorem AreLine.readAsLine (h : AreLine P ws) (hws : ∀ w ∈ ws, w.isSpelled)
    (hlayout : Layout (fun v w => ¬ v.Merges w) none ws cs) : ReadAsLine P cs := by
  have hnewline : Layout (fun v w => ¬ v.Merges w) none (ws ++ [.newline]) (cs ++ ['\n']) :=
    hlayout.append fun _ => .glued (fun _ _ => Word.not_merges (.inr (.inr rfl))) .empty
  have hspelled : ∀ w ∈ ws ++ [.newline], w.isSpelled :=
    List.forall_mem_append.2 ⟨hws, List.forall_mem_singleton.2 rfl⟩
  obtain ⟨ts, hscan, hts⟩ := Lexer.scan_layout .origin false hnewline hspelled
  rw [List.foldl_append, List.foldl_cons, List.foldl_nil, if_neg (by decide), List.append_nil] at hts
  obtain ⟨ts₁, t, us, rfl, hts₁, ht, hus⟩ := exists_split hts
  obtain rfl := List.map_eq_nil_iff.1 hus
  obtain ⟨d, ss, hline, hd, hP⟩ := h ts₁ hts₁
  exact ⟨_, d, ss, hscan, hline.leads (Token.payload_eq ht).1, hd, hP⟩

/-- A text in which the words of a line are set out, and nothing behind it. -/
theorem AreLine.readAsProgram (h : AreLine P ws) (hws : ∀ w ∈ ws, w.isSpelled)
    (hlayout : Layout (fun v w => ¬ v.Merges w) none ws cs) : ReadAsProgram P cs := by
  obtain ⟨ts, us, hscan, hts, hus⟩ := hlayout.exists_tokens hws
  obtain ⟨d, ss, hline, hd, hP⟩ := h ts hts
  exact ⟨_, d, ss, hscan, Lines.append_end (.last hline) hus, hd, hP⟩

end Reading

/-! ## Samples -/

namespace Corpus

variable {names : List String} {e : Entry} {es : List Entry}

/-- The words of a line. -/
def Entry.words : Entry → List Word
  | pass => [.ident "pass"]
  | comment _ | blank => []
  | print value => .ident "print" :: .lparen :: (value.words ++ [.rparen])
  | increase ident amount => [.ident ident, .op .addAssign, .number (toString amount)]
  | assign ident value =>
    .ident ident :: .op .assign ::
      ((.lparen :: (value.words ++ [.rparen])) ++ [.op .mod, .number (toString 1000)])

theorem Entry.layout (he : ∀ word, e ≠ .comment word) :
    Layout (fun v w => ¬ v.Merges w) none e.words e.text.toList := by
  cases e with
  | pass => exact .single (.ident "pass")
  | comment word => exact absurd rfl (he word)
  | blank => exact .empty
  | print value =>
    have htext : (Entry.print value).text.toList =
        "print".toList ++ '(' :: (value.text.toList ++ [')']) := by
      rw [Entry.text]
      simp only [String.toList_append, List.append_assoc]
      rfl
    rw [htext]
    exact .glued nofun (value.layout.parens _)
  | increase ident amount =>
    have htext : (Entry.increase ident amount).text.toList =
        ident.toList ++ ' ' :: ("+=".toList ++ ' ' :: ((toString amount).toList ++ [])) := by
      rw [Entry.text]
      simp only [String.toList_append, List.append_assoc, List.append_nil]
      rfl
    rw [htext]
    exact .glued nofun (.spaced (.spaced .empty))
  | assign ident value =>
    have htext : (Entry.assign ident value).text.toList =
        ident.toList ++ ' ' :: (['='] ++ ([' '] ++ '(' :: (value.text.toList ++ [')']) ++
          ' ' :: (['%'] ++ ' ' :: ((toString 1000).toList ++ [])))) := by
      rw [Entry.text]
      simp only [String.toList_append, List.append_assoc, List.cons_append]
      rfl
    have hvalue : Layout (fun v w => ¬ v.Merges w) (some (.op .assign)) _ _ :=
      (value.layout.parens none).precede Lexer.isGap_space nofun
    rw [htext]
    exact .glued nofun (.spaced (hvalue.append fun _ => .spaced (.spaced .empty)))

theorem Entry.IsTame.isSpelled (h : e.IsTame names) (hnames : ∀ ident ∈ names, IsVariable ident) :
    ∀ w ∈ e.words, w.isSpelled := by
  cases h with
  | pass => decide
  | comment | blank => exact List.forall_mem_nil _
  | print h =>
    simp only [Entry.words, List.forall_mem_cons, List.forall_mem_append]
    exact ⟨by decide, rfl, h.isSpelled hnames, rfl, List.forall_mem_nil _⟩
  | increase hident hamount =>
    simp only [Entry.words, List.forall_mem_cons]
    have hliteral := isLiteral_toString (Nat.le_trans hamount (by decide : 9 ≤ maxLiteral))
    exact ⟨(hnames _ hident).1, rfl, hliteral, List.forall_mem_nil _⟩
  | assign hident h =>
    simp only [Entry.words, List.forall_mem_cons, List.forall_mem_append]
    have hliteral := isLiteral_toString (by decide : 1000 ≤ maxLiteral)
    exact ⟨hident.1, rfl, ⟨rfl, h.isSpelled hnames, rfl, List.forall_mem_nil _⟩, rfl, hliteral,
      List.forall_mem_nil _⟩

/-- A line makes a name known by assigning to it. -/
theorem mem_known_assign {ident other : String} {value : Term}
    (h : other ∈ (Entry.assign ident value).known names) : other = ident ∨ other ∈ names := by
  rw [Entry.known] at h
  split at h
  · exact .inr h
  · rcases List.mem_append.1 h with h | h
    · exact .inr h
    · exact .inl (List.mem_singleton.1 h)

/-- Only variables become known. -/
theorem Entry.IsTame.isVariable_known (h : e.IsTame names)
    (hnames : ∀ ident ∈ names, IsVariable ident) : ∀ ident ∈ e.known names, IsVariable ident := by
  cases h with
  | assign hident =>
    intro other hother
    rcases mem_known_assign hother with rfl | hother
    · exact hident
    · exact hnames other hother
  | pass | comment | blank | print | increase => exact hnames

theorem areLine_print {value : Term} (h : value.IsTame names) (hcount : value.operators ≤ 3) :
    AreLine (Stmts.RunSmoothly names names 0) (Entry.print value).words := by
  intro ts hts
  obtain ⟨t, ts, rfl, ht, hts⟩ := List.map_eq_cons_iff.1 hts
  obtain ⟨a, ts, rfl, ha, hts⟩ := List.map_eq_cons_iff.1 hts
  obtain ⟨ts₁, u, us, rfl, hts₁, hu, hus⟩ := exists_split hts
  obtain rfl := List.map_eq_nil_iff.1 hus
  obtain ⟨d, e, he, hd, hetame, hecount⟩ := h.arePhrase.exists_le hts₁
  have hlength := value.length_words
  have hsimple := Simple.print (Token.isWord_of_payload ht) (Token.payload_eq ha).1 he
    (Token.payload_eq hu).1
  refine ⟨d, _, .ofSimple hsimple, ?_, .print hetame (by omega)⟩
  rw [nestingLimit]
  omega

theorem areLine_increase {ident : String} {amount : Nat} (hident : ident ∈ names)
    (hvariable : IsVariable ident) (hamount : amount ≤ 9) :
    AreLine (Stmts.RunSmoothly names names 9) (Entry.increase ident amount).words := by
  intro ts hts
  obtain ⟨t, ts, rfl, ht, hts⟩ := List.map_eq_cons_iff.1 hts
  obtain ⟨u, ts, rfl, hu, hts⟩ := List.map_eq_cons_iff.1 hts
  obtain ⟨v, rfl, hv⟩ := List.map_eq_singleton_iff.1 hts
  obtain ⟨hkind, rfl⟩ := Token.ident_of_payload ht
  obtain ⟨hnumber, hvalue⟩ := Token.number_of_payload hv
  have hsum := Phrase.ofProduct (.ofPower (.ofPrimary (.number hnumber hvalue)))
  refine ⟨1, _, .assignment (.addAssign hkind hvariable.2.1 hvariable.2.2
    (Token.isOperator_of_payload hu) hsum), by decide, ?_⟩
  exact .increase hident (by omega) (Nat.le_refl 9)

theorem areLine_assign {ident : String} {value : Term} (hvariable : IsVariable ident)
    (h : value.IsTame names) (hcount : value.operators ≤ 3) :
    AreLine (Stmts.RunSmoothly names ((Entry.assign ident value).known names) 0)
      (Entry.assign ident value).words := by
  intro ts hts
  obtain ⟨t, ts, rfl, ht, hts⟩ := List.map_eq_cons_iff.1 hts
  obtain ⟨u, ts, rfl, hu, hts⟩ := List.map_eq_cons_iff.1 hts
  obtain ⟨ts₁, m, us, rfl, hts₁, hm, hus⟩ := exists_split hts
  obtain ⟨v, rfl, hv⟩ := List.map_eq_singleton_iff.1 hus
  obtain ⟨hkind, rfl⟩ := Token.ident_of_payload ht
  obtain ⟨hnumber, hthousand⟩ := Token.number_of_payload hv
  obtain ⟨d, e, he, hd, hetame, hecount⟩ := h.arePhrase.parens.exists_le hts₁
  have hsum := Phrase.ofProduct (.product (.ofPower (.ofPrimary he))
    (Token.isOperator_of_payload hm) (.inr (.inr rfl)) (.ofPrimary (.number hnumber hthousand)))
  refine ⟨_, _, .assignment (.assign hkind hvariable.2.1 hvariable.2.2
    (Token.isOperator_of_payload hu) hsum), ?_,
    .assign_mod hetame (by omega) fun _ => mem_known_assign⟩
  have hlength := value.length_words
  rw [List.length_cons, List.length_append, List.length_singleton] at hd
  rw [nestingLimit]
  omega

/-- **A line of a sample runs smoothly**, and no value grows by more than a digit. -/
theorem Entry.IsTame.areLine (h : e.IsTame names) (hnames : ∀ ident ∈ names, IsVariable ident) :
    AreLine (Stmts.RunSmoothly names (e.known names) 9) e.words := by
  cases h with
  | pass =>
    intro ts hts
    obtain ⟨t, rfl, ht⟩ := List.map_eq_singleton_iff.1 hts
    exact ⟨0, _, .ofSimple (.pass (Token.isWord_of_payload ht)), Nat.zero_le _,
      Stmts.RunSmoothly.pass.mono (Nat.zero_le 9)⟩
  | comment | blank =>
    intro ts hts
    obtain rfl := List.map_eq_nil_iff.1 hts
    exact ⟨0, [], .empty, Nat.zero_le _, Stmts.RunSmoothly.nil.mono (Nat.zero_le 9)⟩
  | print h hcount => exact (areLine_print h hcount).mono (Nat.zero_le 9)
  | increase hident hamount => exact areLine_increase hident (hnames _ hident) hamount
  | assign hident h hcount => exact (areLine_assign hident h hcount).mono (Nat.zero_le 9)

/-- A comment takes up its line and leaves no token. -/
theorem scan_comment {word : String} (hword : isName word) {tail : List Char}
    (htail : tail = [] ∨ tail = ['\n']) :
    Lexer.scan .origin false [] ((Entry.comment word).text.toList ++ tail) = .ok [] := by
  have htext : (Entry.comment word).text.toList = '#' :: ' ' :: word.toList := by
    rw [Entry.text]
    simp only [String.toList_append]
    rfl
  have hmem : '\n' ∉ ' ' :: word.toList := by
    rw [List.mem_cons, not_or]
    exact ⟨by decide, not_mem_of_isName (by decide) hword⟩
  have hrest : Text.afterFirstLine tail = [] := by rcases htail with rfl | rfl <;> rfl
  rw [htext, List.cons_append, Lexer.scan_hash, Text.afterFirstLine_append hmem, hrest, Lexer.scan_nil]
  rfl

/-- **A line of a sample**, with a line feed behind it. -/
theorem Entry.IsTame.readAsLine (h : e.IsTame names) (hnames : ∀ ident ∈ names, IsVariable ident) :
    ReadAsLine (Stmts.RunSmoothly names (e.known names) 9) e.text.toList := by
  by_cases hcomment : ∃ word, e = .comment word
  · obtain ⟨word, rfl⟩ := hcomment
    cases h with
    | comment hword =>
      exact ⟨[], 0, [], scan_comment hword (.inr rfl), .nil, Nat.zero_le _,
        Stmts.RunSmoothly.nil.mono (Nat.zero_le 9)⟩
  · exact (h.areLine hnames).readAsLine (h.isSpelled hnames) (Entry.layout (not_exists.1 hcomment))

/-- The last line of a sample, with nothing behind it. -/
theorem Entry.IsTame.readAsProgram (h : e.IsTame names)
    (hnames : ∀ ident ∈ names, IsVariable ident) :
    ReadAsProgram (Stmts.RunSmoothly names (e.known names) 9) e.text.toList := by
  by_cases hcomment : ∃ word, e = .comment word
  · obtain ⟨word, rfl⟩ := hcomment
    cases h with
    | comment hword =>
      have hscan := scan_comment hword (.inl rfl)
      rw [List.append_nil] at hscan
      exact ⟨[], 0, [], hscan, .last .empty, Nat.zero_le _,
        Stmts.RunSmoothly.nil.mono (Nat.zero_le 9)⟩
  · exact (h.areLine hnames).readAsProgram (h.isSpelled hnames)
      (Entry.layout (not_exists.1 hcomment))

theorem Sample.text_cons_cons (e e' : Entry) (es : List Entry) (closed : Bool) :
    (Sample.mk (e :: e' :: es) closed).text.toList =
      e.text.toList ++ '\n' :: (Sample.mk (e' :: es) closed).text.toList := by
  simp only [Sample.text, List.map_cons, String.intercalate_cons_cons, String.toList_append,
    List.append_assoc]
  rfl

theorem Sample.text_singleton (e : Entry) (closed : Bool) :
    (Sample.mk [e] closed).text.toList = e.text.toList ++ if closed then ['\n'] else [] := by
  cases closed <;> simp [Sample.text]

/-- A sample without lines has the text of one with a blank line. -/
theorem Sample.text_nil (closed : Bool) :
    (Sample.mk [] closed).text = (Sample.mk [.blank] closed).text := by
  cases closed <;> simp [Sample.text, Entry.text]

theorem Entry.IsTame.readAsSample (h : e.IsTame names) (hnames : ∀ ident ∈ names, IsVariable ident)
    (closed : Bool) : ReadAsProgram (Stmts.RunSmoothly names (e.known names) 9)
      (Sample.mk [e] closed).text.toList := by
  rw [Sample.text_singleton]
  cases closed with
  | false =>
    rw [if_neg (by decide), List.append_nil]
    exact h.readAsProgram hnames
  | true => exact (h.readAsLine hnames).program

/-- **The lines of a sample** are a program that runs smoothly. -/
theorem Entries.AreTame.readAsProgram (h : Entries.AreTame names es)
    (hnames : ∀ ident ∈ names, IsVariable ident) (closed : Bool) :
    ∃ names', ReadAsProgram (Stmts.RunSmoothly names names' (9 * (es.length + 1)))
      (Sample.mk es closed).text.toList := by
  induction es generalizing names with
  | nil =>
    rw [Sample.text_nil]
    exact ⟨names, Entry.IsTame.readAsSample .blank hnames closed⟩
  | cons e es ih =>
    obtain ⟨he, hes⟩ := h
    cases es with
    | nil =>
      have hlast := he.readAsSample hnames closed
      exact ⟨_, hlast.mono (Nat.le_add_left 9 9)⟩
    | cons e' es =>
      obtain ⟨names', hrest⟩ := ih hes (he.isVariable_known hnames)
      have hall := (he.readAsLine hnames).append hrest
      rw [Sample.text_cons_cons]
      refine ⟨names', hall.mono ?_⟩
      simp only [List.length_cons]
      omega

/-- The text is a program that runs cleanly from the start: it reads nothing, no error ends it, and it
prints one number, on a line of its own, for each statement that prints. -/
def RunsCleanly (source : String) : Prop :=
  ∃ p, Program.ofSource source = .ok p ∧
    ∀ input : String, ∃ (s : Session) (numbers : List Int),
      (runSource source).run (Session.start ∅ input) = .ok () s ∧
      s.input = input.toList ∧
      s.output = texts (numbers.map .value) ∧
      numbers.length = p.main.statements.countP Stmt.isPrint

end Corpus

theorem ReadAsProgram.runsCleanly {source : String} {names : List String} {growth : Nat}
    (h : ReadAsProgram (Stmts.RunSmoothly [] names growth) source.toList)
    (hgrowth : growth ≤ 1000000) : Corpus.RunsCleanly source := by
  obtain ⟨ts, d, ss, hscan, hlines, hd, hsmooth⟩ := h
  have hp : Program.ofSource source = .ok ⟨⟨ss⟩⟩ :=
    Program.ofSource_eq_ok_iff.2 ⟨ts, hscan, Program.ofTokens_eq_ok_iff.2 ⟨d, hlines, hd⟩⟩
  refine ⟨_, hp, fun input => ?_⟩
  obtain ⟨s, numbers, hrun, -, hprints, hcount⟩ :=
    hsmooth (Session.start ∅ input) 999 (List.forall_mem_nil _) (Nat.le_refl 999) (by omega)
  refine ⟨s, numbers, ?_, hprints.input, ?_, hcount⟩
  · rw [runSource, hp]
    exact hrun
  · rw [hprints.output]
    exact String.empty_append

namespace Corpus

open Draw Draw.Gen

theorem runsCleanly_of_possible {x : Sample} (h : Possible sample x) : RunsCleanly x.text := by
  obtain ⟨htame, hlength⟩ := always_sample x h
  obtain ⟨names, hread⟩ := htame.readAsProgram (List.forall_mem_nil _) x.closed
  exact hread.runsCleanly (by omega)

theorem possible_of_mem_samples {x : Sample} {count : Nat} {t : Twister} (h : x ∈ samples count t) :
    Possible sample x := by
  induction count generalizing t with
  | zero => cases h
  | succ count ih =>
    rcases List.mem_cons.1 h with rfl | h
    · exact possible_run sample t
    · exact ih h

/-- **Every sample is a program that runs cleanly**, whatever is drawn to make it. In particular this
holds of every text in the corpus of every seed. -/
theorem samples_runCleanly :
    (∀ x, Possible sample x → RunsCleanly x.text) ∧
    ∀ (seed count : Int), ∀ text ∈ programs seed count, RunsCleanly text := by
  refine ⟨fun x hx => runsCleanly_of_possible hx, fun seed count text htext => ?_⟩
  obtain ⟨x, hx, rfl⟩ := List.mem_map.1 htext
  exact runsCleanly_of_possible (possible_of_mem_samples hx)

/-- A quotient is drawn whose dividend is a difference; the text reads as a difference. -/
theorem samples_runCleanly_difference :
    let x : Sample := ⟨[.assign "a" (.binary false (.binary false (.number 7) .minus (.number 8))
      .div (.number 2)), .print (.name "a")], true⟩
    Possible sample x ∧ x.text = "a = (7 - 8 // 2) % 1000\nprint(a)\n" ∧ RunsCleanly x.text ∧
      ∃ text ∈ programs 0 1, RunsCleanly text := by
  intro x
  have hlow : 0 < Twister.outcomes53 := by decide
  have hmiddle : 2 ^ 51 < Twister.outcomes53 := by decide
  have hhigh : 2 ^ 53 - 1 < Twister.outcomes53 := by decide
  have hx : Possible sample x :=
    -- two lines, of which the first assigns to a name with one letter
    .upTo 2 (.bits53 ⟨_, hhigh⟩ (.upTo 0 (.upTo 0
      -- the quotient, its dividend and its divisor
      (.bits53 ⟨_, hhigh⟩ (.upTo 3 (.bits53 ⟨_, hhigh⟩ (.upTo 1 (.upTo 7 (.upTo 8
        (.bits53 ⟨_, hhigh⟩ (.upTo 1 (.bits53 ⟨_, hhigh⟩
          -- the second line prints the name, and a line feed ends it
          (.bits53 ⟨_, hmiddle⟩ (.bits53 ⟨_, hlow⟩ (.bits53 ⟨_, hlow⟩ (.upTo 0
            (.bits53 ⟨_, hlow⟩ (.done _))))))))))))))))))
  have hmem (t : Twister) : (sample.run t).1 ∈ samples 1 t := List.mem_cons_self
  have htext := List.mem_map_of_mem (f := Sample.text) (hmem (.ofSeed 0))
  exact ⟨hx, by decide +kernel, samples_runCleanly.1 x hx, _, htext, samples_runCleanly.2 0 1 _ htext⟩

end Corpus

end Reckon
