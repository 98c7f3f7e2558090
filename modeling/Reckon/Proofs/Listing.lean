import Reckon.Proofs.Choice
import Reckon.Tree.Listing

/-!
# Listings can be read back

The listing of a program shows all that is in its tree, each node with its span, so two programs
with the same listing are the same. Nothing is escaped in a listing, and that it can be read back is
due to what programs are made of: there is no blank in a name, no quote and no line feed in a prompt.

* `Expr.isWritable` is what is needed of a tree, and `Program.ofSource_isWritable` finds it in all
  programs that were read from a text.
* `Text.EndsAt` is about the fields of a line: where one ends is seen from the character behind it.
* `Expr.lines_append_inj` is about the lines of an expression. Their number is not written anywhere,
  but the line of a node tells how many operands come next, so that the end of an expression can be
  found whatever follows.
-/

namespace Reckon

open Grammar

/-! ## Programs of texts -/

/-- The token says a word that a text can hold. -/
def Token.IsSpelled (t : Token) : Prop :=
  t.kind = .newline ∨ ∃ w : Word, w.isSpelled ∧ t.payload = w.payload

theorem Tiled.isSpelled {cs : List Char} {i : Nat} {lineOpen : Bool} {tiles : List Tile}
    (h : Tiled cs i lineOpen tiles) : ∀ t ∈ tiles, t.token.IsSpelled := by
  induction h with
  | done => simp
  | close => exact List.forall_mem_singleton.2 (.inl rfl)
  | blank hc h ih => exact ih
  | comment hc h ih => exact ih
  | closingComment hc h ih => exact List.forall_mem_cons.2 ⟨.inl rfl, ih⟩
  | word w hw hj htext hpayload hspan h ih =>
    exact List.forall_mem_cons.2 ⟨.inr ⟨w, hw, hpayload⟩, ih⟩

theorem tokenize_isSpelled {source : String} {ts : List Token} (h : tokenize source = .ok ts) :
    ∀ t ∈ ts, t.IsSpelled := by
  obtain ⟨tiles, rfl, htiles⟩ := tiled_of_scan [] h
  intro t ht
  obtain ⟨tile, htile, rfl⟩ := List.mem_map.1 ht
  exact htiles.isSpelled tile htile

namespace Token.IsSpelled

variable {t : Token}

/-- A token of another kind than a newline says a word of that kind. -/
theorem exists_word (h : t.IsSpelled) (hkind : t.kind ≠ .newline) :
    ∃ w : Word, w.isSpelled ∧ t.kind = w.payload.1 ∧ t.lexeme = w.payload.2.1 ∧
      t.value = w.payload.2.2 := by
  rcases h with h | ⟨w, hw, hpayload⟩
  · exact absurd h hkind
  · exact ⟨w, hw, Token.payload_eq hpayload⟩

theorem isName (h : t.IsSpelled) (ht : t.kind = .ident) : isName t.lexeme := by
  obtain ⟨w, hw, hkind, hlexeme, -⟩ := h.exists_word (by simp [ht])
  rw [ht] at hkind
  rw [hlexeme]
  cases w <;> cases hkind
  exact hw

theorem isQuotable (h : t.IsSpelled) (ht : t.kind = .string) : isQuotable t.lexeme := by
  obtain ⟨w, hw, hkind, hlexeme, -⟩ := h.exists_word (by simp [ht])
  rw [ht] at hkind
  rw [hlexeme]
  cases w <;> cases hkind
  exact hw

theorem value_le (h : t.IsSpelled) (ht : t.kind = .number) {n : Int}
    (hn : t.value = some (.int n)) : 0 ≤ n ∧ n ≤ maxLiteral := by
  obtain ⟨w, hw, hkind, -, hvalue⟩ := h.exists_word (by simp [ht])
  rw [ht] at hkind
  rw [hn] at hvalue
  cases w <;> cases hkind
  cases hvalue
  simp only [Word.isSpelled, isLiteral, Bool.and_eq_true, decide_eq_true_eq] at hw
  exact ⟨Int.natCast_nonneg _, Int.ofNat_le.2 hw.2⟩

end Token.IsSpelled

namespace Grammar

variable {level : Level} {d : Nat} {ts : List Token} {e : Expr} {s : Stmt} {ss : List Stmt}

theorem Phrase.isWritable (h : Phrase level d ts e) (hts : ∀ t ∈ ts, t.IsSpelled) :
    e.isWritable := by
  have hjoin {l r : Expr} {o : Operator} (hl : l.isWritable) (ho : o.isArithmetic)
      (hr : r.isWritable) : (l.join o r).isWritable := by
    simp [Expr.join, Expr.isWritable, hl, ho, hr]
  induction h with
  | sum left ht ho right ihl ihr =>
    simp only [List.forall_mem_append, List.forall_mem_cons] at hts
    refine hjoin (ihl hts.1) ?_ (ihr hts.2.2)
    rcases ho with rfl | rfl <;> rfl
  | product left ht ho right ihl ihr =>
    simp only [List.forall_mem_append, List.forall_mem_cons] at hts
    refine hjoin (ihl hts.1) ?_ (ihr hts.2.2)
    rcases ho with rfl | rfl | rfl <;> rfl
  | power left ht right ihl ihr =>
    simp only [List.forall_mem_append, List.forall_mem_cons] at hts
    exact hjoin (ihl hts.1) rfl (ihr hts.2.2)
  | ofProduct _ ih | ofPower _ ih | ofPrimary _ ih => exact ih hts
  | parens ht h hu ih =>
    simp only [List.forall_mem_append, List.forall_mem_cons] at hts
    exact ih hts.2.1
  | number ht hn =>
    rw [List.forall_mem_singleton] at hts
    simpa [Expr.isWritable] using hts.value_le ht hn
  | name ht =>
    rw [List.forall_mem_singleton] at hts
    exact hts.isName ht
  | input ht ha hs hu =>
    simp only [List.forall_mem_cons] at hts
    exact hts.2.2.1.isQuotable hs

theorem Simple.isWritable (h : Simple d ts s) (hts : ∀ t ∈ ts, t.IsSpelled) : s.isWritable := by
  cases h with
  | pass => rfl
  | print ht ha h hu =>
    simp only [List.forall_mem_append, List.forall_mem_cons] at hts
    exact h.isWritable hts.2.2.1

theorem Assignment.isWritable (h : Assignment d ts s) (hts : ∀ t ∈ ts, t.IsSpelled) :
    s.isWritable := by
  cases h with
  | assign ht hpass hprint hu h | addAssign ht hpass hprint hu h =>
    simp only [List.forall_mem_cons] at hts
    have hname := hts.1.isName ht
    have hvalue := h.isWritable hts.2.2
    simp [Stmt.isWritable, Expr.join, Expr.isWritable, Operator.isArithmetic, hname, hpass, hprint,
      hvalue]

theorem Line.isWritable (h : Line d ts ss) (hts : ∀ t ∈ ts, t.IsSpelled) :
    ∀ s ∈ ss, s.isWritable := by
  induction h with
  | empty => simp
  | simple h _ ih =>
    rw [List.forall_mem_append] at hts
    exact List.forall_mem_cons.2 ⟨h.isWritable hts.1, ih hts.2⟩
  | assignment h => exact List.forall_mem_singleton.2 (h.isWritable hts)

theorem Lines.isWritable (h : Lines d ts ss) (hts : ∀ t ∈ ts, t.IsSpelled) :
    ∀ s ∈ ss, s.isWritable := by
  induction h with
  | last h => exact h.isWritable hts
  | cons h _ _ ih =>
    simp only [List.forall_mem_append, List.forall_mem_cons] at hts ⊢
    exact ⟨h.isWritable hts.1, ih hts.2.2⟩

end Grammar

/-- **What was read from a text can be written as one.** -/
theorem Program.ofSource_isWritable {source : String} {p : Program}
    (h : Program.ofSource source = .ok p) : ∀ s ∈ p.main.statements, s.isWritable := by
  obtain ⟨ts, hts, hp⟩ := Program.ofSource_eq_ok_iff.1 h
  obtain ⟨d, hlines, -⟩ := Program.ofTokens_eq_ok_iff.1 hp
  exact hlines.isWritable (tokenize_isSpelled hts)

/-! ## Fields -/

namespace Text

variable {α : Type} {stop : Char} {P : α → Prop} {f : α → String}

/-- What is written as `f a` can be read back, where the character `stop` follows. -/
def EndsAt (stop : Char) (P : α → Prop) (f : α → String) : Prop :=
  ∀ a b x y, P a → P b → (f a).toList ++ stop :: x = (f b).toList ++ stop :: y → a = b ∧ x = y

theorem EndsAt.inj (h : EndsAt stop P f) {a b : α} {x y : List Char} (ha : P a) (hb : P b)
    (heq : (f a).toList ++ stop :: x = (f b).toList ++ stop :: y) : a = b ∧ x = y :=
  h a b x y ha hb heq

/-- A character marks the end of a text in which it does not occur. -/
theorem append_cons_inj {c : Char} {ds es x y : List Char} (hds : c ∉ ds) (hes : c ∉ es)
    (h : ds ++ c :: x = es ++ c :: y) : ds = es ∧ x = y := by
  induction ds generalizing es with
  | nil =>
    cases es with
    | nil =>
      cases h
      exact ⟨rfl, rfl⟩
    | cons e es =>
      cases h
      exact absurd (List.mem_cons_self) hes
  | cons d ds ih =>
    cases es with
    | nil =>
      cases h
      exact absurd (List.mem_cons_self) hds
    | cons e es =>
      obtain ⟨rfl, htail⟩ := List.cons.inj h
      obtain ⟨rfl, hxy⟩ := ih (fun hc => hds (.tail d hc)) (fun hc => hes (.tail d hc)) htail
      exact ⟨rfl, hxy⟩

theorem EndsAt.of_not_mem (hf : ∀ {a b}, f a = f b → a = b)
    (hstop : ∀ a, P a → stop ∉ (f a).toList) : EndsAt stop P f := by
  intro a b x y ha hb h
  obtain ⟨hab, hxy⟩ := append_cons_inj (hstop a ha) (hstop b hb) h
  exact ⟨hf (String.toList_inj.1 hab), hxy⟩

/-- A number is written with a minus sign and the digits of its magnitude, or with digits only. -/
theorem toList_int (n : Int) :
    ∃ negative digits, signedValue negative digits = n ∧ digits ≠ [] ∧ digits.all Lexer.isDigit ∧
      (toString n).toList = (if negative then ['-'] else []) ++ digits := by
  have hall (m : Nat) := List.all_eq_true.2 (isDigit_of_mem_toDigits m)
  cases n with
  | ofNat m =>
    refine ⟨false, Nat.toDigits 10 m, ?_, Nat.toDigits_ne_nil, hall m, Nat.toList_repr⟩
    rw [signedValue, Nat.ofDigitChars_ten_toDigits]
    rfl
  | negSucc m =>
    refine ⟨true, Nat.toDigits 10 (m + 1), ?_, Nat.toDigits_ne_nil, hall (m + 1), ?_⟩
    · rw [signedValue, Nat.ofDigitChars_ten_toDigits]
      rfl
    · rw [← Nat.toList_repr]
      exact String.toList_append

theorem not_mem_int {c : Char} (hsign : c ≠ '-') (hc : Lexer.isDigit c = false) (n : Int) :
    c ∉ (toString n).toList := by
  obtain ⟨negative, digits, -, -, hdigits, htext⟩ := toList_int n
  have hnot : c ∉ digits := by
    intro hmem
    rw [List.all_eq_true.1 hdigits c hmem] at hc
    cases hc
  rw [htext]
  cases negative with
  | false => exact hnot
  | true => exact fun hmem => (List.mem_cons.1 hmem).elim hsign hnot

/-- A number ends where no digit comes. -/
theorem endsAt_int (hstop : Lexer.isDigit stop = false) :
    EndsAt stop (fun _ => True) (toString : Int → String) := by
  have hend (z : List Char) : ∀ c ∈ (stop :: z).head?, Lexer.isDigit c = false := by
    intro c hc
    cases hc
    exact hstop
  -- digits go on up to the mark, so they are the same on both sides
  have hsame {ds es x y : List Char} (hds : ds.all Lexer.isDigit) (hes : es.all Lexer.isDigit)
      (h : ds ++ stop :: x = es ++ stop :: y) : ds = es ∧ x = y := by
    have htake := congrArg (List.takeWhile Lexer.isDigit) h
    rw [Lexer.takeWhile_append_of_head hds (hend x),
      Lexer.takeWhile_append_of_head hes (hend y)] at htake
    subst htake
    exact ⟨rfl, (List.cons.inj (List.append_cancel_left h)).2⟩
  -- a digit is no sign
  have hmixed {ds x y : List Char} (hne : ds ≠ []) (hds : ds.all Lexer.isDigit)
      (h : ds ++ x = '-' :: y) : False := by
    obtain ⟨d, ds, rfl⟩ := List.exists_cons_of_ne_nil hne
    cases h
    cases hds
  intro n m x y _ _ h
  obtain ⟨negative, ds, rfl, hdsne, hds, hn⟩ := toList_int n
  obtain ⟨negative', es, rfl, hesne, hes, hm⟩ := toList_int m
  rw [hn, hm] at h
  cases negative <;> cases negative'
  · obtain ⟨rfl, hxy⟩ := hsame hds hes h
    exact ⟨rfl, hxy⟩
  · exact (hmixed hdsne hds h).elim
  · exact (hmixed hesne hes h.symm).elim
  · obtain ⟨rfl, hxy⟩ := hsame hds hes (List.cons.inj h).2
    exact ⟨rfl, hxy⟩

theorem endsAt_name : EndsAt ' ' (fun name => isName name) id :=
  .of_not_mem id fun _ h => not_mem_of_isName (by decide) h

theorem not_mem_prompt {c : Char} (hc : c = '"' ∨ c = '\n') {prompt : String}
    (h : isQuotable prompt) : c ∉ prompt.toList := by
  intro hmem
  have hne := List.all_eq_true.1 h c hmem
  rcases hc with rfl | rfl <;> simp at hne

theorem endsAt_prompt : EndsAt '"' (fun prompt => isQuotable prompt) id :=
  .of_not_mem id fun _ h => not_mem_prompt (.inl rfl) h

theorem endsAt_symbol : EndsAt ' ' (fun _ => True) Operator.symbol := by
  refine .of_not_mem (fun {a b} => ?_) fun o _ => ?_
  · cases a <;> cases b <;> decide
  · cases o <;> decide

theorem endsAt_label : EndsAt ' ' (fun _ => True) NodeKind.label := by
  refine .of_not_mem (fun {a b} => ?_) fun k _ => ?_
  · cases a <;> cases b <;> decide
  · cases k <;> decide

end Text

open Text (endsAt_int)

/-! ## The line of a node -/

theorem Span.toList_listed (s : Span) :
    s.listed.toList = '[' :: ((toString s.start.row).toList ++ ':' ::
      ((toString s.start.col).toList ++ '-' :: ((toString s.stop.row).toList ++ ':' ::
      ((toString s.stop.col).toList ++ [']'])))) := by
  simp [Span.listed, Span.render, Loc.render, toString]

theorem Span.listed_inj {s t : Span} (h : s.listed.toList = t.listed.toList) : s = t := by
  rw [Span.toList_listed, Span.toList_listed] at h
  obtain ⟨-, h⟩ := List.cons.inj h
  obtain ⟨hrow, h⟩ := (endsAt_int (by decide)).inj trivial trivial h
  obtain ⟨hcol, h⟩ := (endsAt_int (by decide)).inj trivial trivial h
  obtain ⟨hrow', h⟩ := (endsAt_int (by decide)).inj trivial trivial h
  obtain ⟨hcol', -⟩ := (endsAt_int (by decide)).inj trivial trivial h
  have hstart : s.start = t.start := Loc.mk.injEq .. ▸ ⟨hrow, hcol⟩
  have hstop : s.stop = t.stop := Loc.mk.injEq .. ▸ ⟨hrow', hcol'⟩
  exact Span.mk.injEq .. ▸ ⟨hstart, hstop⟩

theorem Span.newline_not_mem_listed (s : Span) : '\n' ∉ s.listed.toList := by
  have hint (n : Int) : '\n' ∉ (toString n).toList := Text.not_mem_int (by decide) (by decide) n
  rw [Span.toList_listed]
  simp only [List.mem_cons, List.mem_append, not_or]
  exact ⟨by decide, hint _, by decide, hint _, by decide, hint _, by decide, hint _, by decide,
    List.not_mem_nil⟩

theorem toList_indented (depth : Int) (line : String) :
    (indented depth line).toList = List.replicate depth.toNat ' ' ++ line.toList := by
  rw [indented, String.toList_append, String.toList_ofList]

/-- The line of a node tells its kind and all that is said after it. -/
theorem indented_inj {depth : Int} {line line' : String} {k k' : NodeKind} {ds ds' : List Char}
    (hline : line.toList = k.label.toList ++ ' ' :: ds)
    (hline' : line'.toList = k'.label.toList ++ ' ' :: ds')
    (h : indented depth line = indented depth line') : k = k' ∧ ds = ds' := by
  have hlists := congrArg String.toList h
  rw [toList_indented, toList_indented, hline, hline'] at hlists
  exact Text.endsAt_label.inj trivial trivial (List.append_cancel_left hlists)

theorem newline_not_mem_line {line : String} {k : NodeKind} {ds : List Char}
    (hline : line.toList = k.label.toList ++ ' ' :: ds) (hds : '\n' ∉ ds) :
    '\n' ∉ line.toList := by
  have hlabel : '\n' ∉ k.label.toList := by cases k <;> decide
  rw [hline]
  simp [hlabel, hds]

theorem newline_not_mem_indented {line : String} (hline : '\n' ∉ line.toList) (depth : Int) :
    '\n' ∉ (indented depth line).toList := by
  rw [toList_indented]
  simp [hline]

/-! ## Expressions -/

namespace Expr

/-- What the line of a node says after the kind of the node. -/
def details : Expr → List Char
  | name s ident => ident.toList ++ ' ' :: s.listed.toList
  | number s value => (toString value).toList ++ ' ' :: s.listed.toList
  | input s prompt => '"' :: (prompt.toList ++ '"' :: ' ' :: s.listed.toList)
  | binary s _ op _ => op.symbol.toList ++ ' ' :: s.listed.toList
  | misplaced .. => []

theorem toList_headline {e : Expr} (he : e.isWritable) :
    e.headline.toList = e.kind.label.toList ++ ' ' :: e.details := by
  cases e with
  | name s ident =>
    show ("Name " ++ ident ++ " " ++ s.listed).toList = _
    simp [details, kind, NodeKind.label]
  | number s value =>
    show ("Number " ++ toString value ++ " " ++ s.listed).toList = _
    simp [details, kind, NodeKind.label]
  | input s prompt =>
    show ("Input \"" ++ prompt ++ "\" " ++ s.listed).toList = _
    simp [details, kind, NodeKind.label]
  | binary s l o r =>
    show ("BinaryOp " ++ o.symbol ++ " " ++ s.listed).toList = _
    simp [details, kind, NodeKind.label]
  | misplaced => cases he

theorem newline_not_mem_details {e : Expr} (he : e.isWritable) : '\n' ∉ e.details := by
  have hspan := fun s : Span => s.newline_not_mem_listed
  cases e with
  | name s ident => simp [details, hspan, not_mem_of_isName (c := '\n') (by decide) he]
  | number s value =>
    have hvalue : '\n' ∉ (toString value).toList := Text.not_mem_int (by decide) (by decide) value
    simp only [details, List.mem_append, List.mem_cons, not_or]
    exact ⟨hvalue, by decide, hspan s⟩
  | input s prompt => simp [details, hspan, Text.not_mem_prompt (.inr rfl) he]
  | binary s l o r =>
    have hsymbol : '\n' ∉ o.symbol.toList := by cases o <;> decide
    simp [details, hspan, hsymbol]
  | misplaced => cases he

/-- An expression is listed as its topmost node, and then its operands one after the other. -/
theorem lines_eq (e : Expr) (depth : Int) :
    e.lines depth = indented depth e.headline :: e.operands.flatMap (lines (depth + 2)) := by
  cases e with
  | binary s l o r => simp [lines, operands]
  | name | number | input | misplaced => rfl

/-- The listing made with a stack of pending operands is the one by recursion. -/
theorem listPending_eq (before : List String) (pending : List (Expr × Int)) :
    listPending before pending = before.reverse ++ pending.flatMap fun p => p.1.lines p.2 := by
  fun_induction listPending before pending with
  | case1 before => simp
  | case2 before s l o r depth pending ih =>
    rw [ih]
    simp [lines]
  | case3 before e depth pending hleaf ih =>
    have hoperands : e.operands = [] := by
      cases e with
      | binary s l o r => exact absurd rfl (hleaf s l o r)
      | name | number | input | misplaced => rfl
    rw [ih, List.flatMap_cons, lines_eq, hoperands]
    simp

theorem listing_eq (e : Expr) (depth : Int) : e.listing depth = e.lines depth := by
  simp [listing, listPending_eq]

/-- The line of a node tells whether operands follow. -/
theorem operands_eq_nil {e : Expr} (he : e.isWritable) (hkind : e.kind ≠ .binary) :
    e.operands = [] := by
  cases e with
  | binary => exact absurd rfl hkind
  | misplaced => cases he
  | name | number | input => rfl

/-- An expression is its topmost node, of which the line tells all, and its operands. -/
theorem eq_of_details {e e' : Expr} (he : e.isWritable) (he' : e'.isWritable)
    (hkind : e.kind = e'.kind) (hdetails : e.details = e'.details)
    (hoperands : e.operands = e'.operands) : e = e' := by
  cases e with
  | name s ident =>
    cases e' with
    | name s' ident' =>
      obtain ⟨rfl, hspan⟩ := Text.endsAt_name.inj he he' hdetails
      rw [Span.listed_inj hspan]
    | misplaced => cases he'
    | number | input | binary => cases hkind
  | number s value =>
    cases e' with
    | number s' value' =>
      obtain ⟨rfl, hspan⟩ := (endsAt_int (by decide)).inj trivial trivial hdetails
      rw [Span.listed_inj hspan]
    | misplaced => cases he'
    | name | input | binary => cases hkind
  | input s prompt =>
    cases e' with
    | input s' prompt' =>
      obtain ⟨rfl, hspan⟩ := Text.endsAt_prompt.inj he he' (List.cons.inj hdetails).2
      rw [Span.listed_inj (List.cons.inj hspan).2]
    | misplaced => cases he'
    | name | number | binary => cases hkind
  | binary s l o r =>
    cases e' with
    | binary s' l' o' r' =>
      obtain ⟨rfl, hspan⟩ := Text.endsAt_symbol.inj trivial trivial hdetails
      cases hoperands
      rw [Span.listed_inj hspan]
    | misplaced => cases he'
    | name | number | input => cases hkind
  | misplaced => cases he

/-- **The lines of an expression tell the expression**, and where its lines end. -/
theorem lines_append_inj {e e' : Expr} {depth : Int} {rest rest' : List String}
    (he : e.isWritable) (he' : e'.isWritable)
    (h : e.lines depth ++ rest = e'.lines depth ++ rest') : e = e' ∧ rest = rest' := by
  -- the first line says what comes below it: two operands, one after the other, or what follows
  induction e generalizing e' depth rest rest' with
  | misplaced => cases he
  | binary s l o r ihl ihr =>
    rw [lines_eq, lines_eq e'] at h
    obtain ⟨hfirst, hbelow⟩ := List.cons.inj h
    obtain ⟨hkind, hdetails⟩ := indented_inj (toList_headline he) (toList_headline he') hfirst
    suffices hoperands : (binary s l o r).operands = e'.operands ∧ rest = rest' from
      ⟨eq_of_details he he' hkind hdetails hoperands.1, hoperands.2⟩
    cases e' with
    | misplaced => cases he'
    | name | number | input => cases hkind
    | binary s' l' o' r' =>
      simp only [isWritable, Bool.and_eq_true] at he he'
      have hlines : l.lines (depth + 2) ++ (r.lines (depth + 2) ++ rest) =
          l'.lines (depth + 2) ++ (r'.lines (depth + 2) ++ rest') := by
        simpa [operands] using hbelow
      obtain ⟨rfl, hright⟩ := ihl he.1.2 he'.1.2 hlines
      obtain ⟨rfl, hrest⟩ := ihr he.2 he'.2 hright
      exact ⟨rfl, hrest⟩
  | name | number | input =>
    rw [lines_eq, lines_eq e'] at h
    obtain ⟨hfirst, hrest⟩ := List.cons.inj h
    obtain ⟨hkind, hdetails⟩ := indented_inj (toList_headline he) (toList_headline he') hfirst
    have hoperands : e'.operands = [] := by
      refine operands_eq_nil he' fun hbinary => ?_
      rw [hbinary] at hkind
      cases hkind
    rw [hoperands] at hrest
    exact ⟨eq_of_details he he' hkind hdetails hoperands.symm, hrest⟩

/-- There is no line feed within a line. -/
theorem newline_not_mem_lines {e : Expr} (he : e.isWritable) (depth : Int) :
    ∀ line ∈ e.lines depth, '\n' ∉ line.toList := by
  have hfirst {e : Expr} (he : e.isWritable) (depth : Int) :
      '\n' ∉ (indented depth e.headline).toList := by
    refine newline_not_mem_indented ?_ depth
    exact newline_not_mem_line (toList_headline he) (newline_not_mem_details he)
  induction e generalizing depth with
  | binary s l o r ihl ihr =>
    have hparts := he
    simp only [isWritable, Bool.and_eq_true] at hparts
    simp only [lines, List.forall_mem_cons, List.forall_mem_append]
    exact ⟨hfirst he depth, ihl hparts.1.2 _, ihr hparts.2 _⟩
  | name | number | input => exact List.forall_mem_singleton.2 (hfirst he depth)
  | misplaced => cases he

end Expr

/-! ## Statements -/

namespace Stmt

/-- The line of the statement itself. -/
def headline : Stmt → String
  | assign s ident _ => s!"Assign {ident} {s.listed}"
  | print s _ => s!"Print {s.listed}"
  | pass s => s!"Pass {s.listed}"
  | misplaced kind _ => s!"<unsupported statement: {kind.label}>"

/-- What the line of a statement says after the kind of the statement. -/
def details : Stmt → List Char
  | assign s ident _ => ident.toList ++ ' ' :: s.listed.toList
  | print s _ | pass s => s.listed.toList
  | misplaced .. => []

/-- The expression in the statement, if there is one. -/
def value? : Stmt → Option Expr
  | assign _ _ value | print _ value => some value
  | pass _ | misplaced .. => none

theorem listing_eq (s : Stmt) (depth : Int) :
    s.listing depth =
      indented depth s.headline :: s.value?.elim [] fun e => e.listing (depth + 2) := by
  cases s with
  | assign | print | pass | misplaced => rfl

theorem toList_headline {s : Stmt} (hs : s.isWritable) :
    s.headline.toList = s.kind.label.toList ++ ' ' :: s.details := by
  cases s with
  | assign span ident value =>
    show ("Assign " ++ ident ++ " " ++ span.listed).toList = _
    simp [details, kind, NodeKind.label]
  | print span value =>
    show ("Print " ++ span.listed).toList = _
    simp [details, kind, NodeKind.label]
  | pass span =>
    show ("Pass " ++ span.listed).toList = _
    simp [details, kind, NodeKind.label]
  | misplaced => cases hs

theorem newline_not_mem_details {s : Stmt} (hs : s.isWritable) : '\n' ∉ s.details := by
  cases s with
  | assign span ident value =>
    simp only [isWritable, Bool.and_eq_true] at hs
    have hident : '\n' ∉ ident.toList := not_mem_of_isName (by decide) hs.1.1.1
    simp [details, hident, span.newline_not_mem_listed]
  | print span | pass span => exact span.newline_not_mem_listed
  | misplaced => cases hs

theorem value?_isWritable {s : Stmt} (hs : s.isWritable) {e : Expr} (he : s.value? = some e) :
    e.isWritable := by
  cases s with
  | assign span ident value =>
    simp only [isWritable, Bool.and_eq_true] at hs
    exact Option.some.inj he ▸ hs.2
  | print span value => exact Option.some.inj he ▸ hs
  | pass | misplaced => cases he

/-- **The lines of a statement tell the statement**, and where its lines end. -/
theorem listing_append_inj {s s' : Stmt} {depth : Int} {rest rest' : List String}
    (hs : s.isWritable) (hs' : s'.isWritable)
    (h : s.listing depth ++ rest = s'.listing depth ++ rest') : s = s' ∧ rest = rest' := by
  rw [listing_eq, listing_eq s'] at h
  obtain ⟨hfirst, hbelow⟩ := List.cons.inj h
  obtain ⟨hkind, hdetails⟩ := indented_inj (toList_headline hs) (toList_headline hs') hfirst
  have hvalue {e e' : Expr} (he : s.value? = some e) (he' : s'.value? = some e') :
      e = e' ∧ rest = rest' := by
    rw [he, he'] at hbelow
    simp only [Option.elim, Expr.listing_eq] at hbelow
    exact Expr.lines_append_inj (value?_isWritable hs he) (value?_isWritable hs' he') hbelow
  cases s with
  | assign span ident value =>
    cases s' with
    | assign span' ident' value' =>
      simp only [isWritable, Bool.and_eq_true] at hs hs'
      obtain ⟨rfl, hspan⟩ := Text.endsAt_name.inj hs.1.1.1 hs'.1.1.1 hdetails
      obtain ⟨rfl, hrest⟩ := hvalue rfl rfl
      exact ⟨by rw [Span.listed_inj hspan], hrest⟩
    | misplaced => cases hs'
    | print | pass => cases hkind
  | print span value =>
    cases s' with
    | print span' value' =>
      obtain ⟨rfl, hrest⟩ := hvalue rfl rfl
      exact ⟨by rw [Span.listed_inj hdetails], hrest⟩
    | misplaced => cases hs'
    | assign | pass => cases hkind
  | pass span =>
    cases s' with
    | pass span' => exact ⟨by rw [Span.listed_inj hdetails], hbelow⟩
    | misplaced => cases hs'
    | assign | print => cases hkind
  | misplaced => cases hs

/-- There is no line feed within a line. -/
theorem newline_not_mem_listing {s : Stmt} (hs : s.isWritable) (depth : Int) :
    ∀ line ∈ s.listing depth, '\n' ∉ line.toList := by
  rw [listing_eq, List.forall_mem_cons]
  have hfirst := newline_not_mem_line (toList_headline hs) (newline_not_mem_details hs)
  refine ⟨newline_not_mem_indented hfirst depth, ?_⟩
  cases hvalue : s.value? with
  | none => exact List.forall_mem_nil _
  | some e =>
    simp only [Option.elim, Expr.listing_eq]
    exact Expr.newline_not_mem_lines (value?_isWritable hs hvalue) (depth + 2)

/-- The lines of statements tell the statements. -/
theorem listing_flatMap_inj {ss ss' : List Stmt} {depth : Int} (hss : ∀ s ∈ ss, s.isWritable)
    (hss' : ∀ s ∈ ss', s.isWritable)
    (h : ss.flatMap (·.listing depth) = ss'.flatMap (·.listing depth)) : ss = ss' := by
  have hne (s : Stmt) (rest : List String) : s.listing depth ++ rest ≠ [] := by
    simp [listing_eq]
  induction ss generalizing ss' with
  | nil =>
    cases ss' with
    | nil => rfl
    | cons s' ss' => exact absurd h.symm (hne s' _)
  | cons s ss ih =>
    cases ss' with
    | nil => exact absurd h (hne s _)
    | cons s' ss' =>
      rw [List.forall_mem_cons] at hss hss'
      obtain ⟨rfl, hrest⟩ := listing_append_inj hss.1 hss'.1 h
      rw [ih hss.2 hss'.2 hrest]

end Stmt

/-! ## Programs -/

/-- Lines without a line feed can be told apart when each ends in one. -/
theorem Text.flatMap_newline_inj {ls ls' : List String} (hls : ∀ l ∈ ls, '\n' ∉ l.toList)
    (hls' : ∀ l ∈ ls', '\n' ∉ l.toList)
    (h : ls.flatMap (fun l => l.toList ++ ['\n']) = ls'.flatMap fun l => l.toList ++ ['\n']) :
    ls = ls' := by
  induction ls generalizing ls' with
  | nil =>
    cases ls' with
    | nil => rfl
    | cons l' ls' => simp at h
  | cons l ls ih =>
    cases ls' with
    | nil => simp at h
    | cons l' ls' =>
      rw [List.forall_mem_cons] at hls hls'
      have hlines : l.toList ++ '\n' :: ls.flatMap (fun l => l.toList ++ ['\n']) =
          l'.toList ++ '\n' :: ls'.flatMap fun l => l.toList ++ ['\n'] := by
        simpa using h
      obtain ⟨hl, hrest⟩ := append_cons_inj hls.1 hls'.1 hlines
      rw [String.toList_inj.1 hl, ih hls.2 hls'.2 hrest]

namespace Program

theorem toList_render (p : Program) :
    p.render.toList = p.listing.flatMap fun line => line.toList ++ ['\n'] := by
  have hjoin (line : String) (lines : List String) :
      ("\n".intercalate (line :: lines)).toList ++ ['\n'] =
        (line :: lines).flatMap fun line => line.toList ++ ['\n'] := by
    induction lines generalizing line with
    | nil => simp
    | cons next lines ih =>
      rw [String.intercalate_cons_cons, List.flatMap_cons, ← ih next]
      simp only [String.toList_append, List.append_assoc]
      rfl
  rw [render, String.toList_append]
  exact hjoin _ _

theorem newline_not_mem_listing {p : Program} (hp : ∀ s ∈ p.main.statements, s.isWritable) :
    ∀ line ∈ p.listing, '\n' ∉ line.toList := by
  have hprogram : '\n' ∉ ("Program " ++ p.span.listed).toList :=
    newline_not_mem_line (k := .program) (by simp [NodeKind.label]) p.span.newline_not_mem_listed
  have hblock : '\n' ∉ ("Block " ++ p.main.span.listed).toList :=
    newline_not_mem_line (k := .block) (by simp [NodeKind.label])
      p.main.span.newline_not_mem_listed
  refine List.forall_mem_cons.2 ⟨hprogram, List.forall_mem_cons.2 ?_⟩
  refine ⟨newline_not_mem_indented hblock 2, List.forall_mem_flatMap.2 fun s hs => ?_⟩
  exact Stmt.newline_not_mem_listing (hp s hs) 4

/-- **The listing of a program loses nothing.** Two programs, each read from a text, of which the
listings are the same, are the same program, with the same span on every node. -/
theorem eq_of_render_eq {source source' : String} {p p' : Program}
    (hp : Program.ofSource source = .ok p) (hp' : Program.ofSource source' = .ok p')
    (h : p.render = p'.render) : p = p' := by
  have hs := ofSource_isWritable hp
  have hs' := ofSource_isWritable hp'
  have hlines : p.listing = p'.listing :=
    Text.flatMap_newline_inj (newline_not_mem_listing hs) (newline_not_mem_listing hs')
      (by rw [← toList_render, ← toList_render, h])
  -- The lines of the program and of its block only repeat what the statements say.
  have hstatements := (List.cons.inj (List.cons.inj hlines).2).2
  have hmain : p.main.statements = p'.main.statements := Stmt.listing_flatMap_inj hs hs' hstatements
  exact Program.mk.injEq .. ▸ Block.mk.injEq .. ▸ hmain

/-- A remark at the end of a line does not show in the listing, nor is it part of the program. The
prompt looks like the end of a line of the listing. -/
theorem eq_of_render_eq_remark :
    let source := "x += input(\"] [1:1-1:9]\")"
    ∃ p p' : Program, Program.ofSource source = .ok p ∧
      Program.ofSource (source ++ " # again") = .ok p' ∧ p.render = p'.render ∧ p = p' := by
  intro source
  have hrender : (Program.ofSource source).toOption.map render =
      (Program.ofSource (source ++ " # again")).toOption.map render := by decide +kernel
  have hsome : (Program.ofSource source).toOption.isSome ∧
      (Program.ofSource (source ++ " # again")).toOption.isSome := by decide +kernel
  obtain ⟨p, hp⟩ := Option.isSome_iff_exists.1 hsome.1
  obtain ⟨p', hp'⟩ := Option.isSome_iff_exists.1 hsome.2
  rw [hp, hp'] at hrender
  have hp := eq_ok_of_toOption hp
  have hp' := eq_ok_of_toOption hp'
  have hrender : p.render = p'.render := Option.some.inj hrender
  exact ⟨p, p', hp, hp', hrender, eq_of_render_eq hp hp' hrender⟩

end Program

end Reckon
