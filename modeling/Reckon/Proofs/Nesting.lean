import Reckon.Proofs.Acceptance
import Reckon.Proofs.Tiling

/-!
# Spans of trees

The nodes of a tree keep the stretches of text that they were read from. These are put together from
the spans of tokens by `Span.join`, which asks nothing of the order of its arguments, and parentheses
leave no trace. The spans come out well nested all the same: the tokens of a text stand in order, and
each node of a tree goes from the start of one of its tokens to the end of another.

* `Expr.IsNested`, `Stmt.IsNested` and `Program.IsNested` say what there is to say about the spans of
  trees, `Arranged` what matters about those of tokens.
* `Span.SitsOn` ties the two together. It is all that has to be known of an operand, since whatever
  sits on earlier tokens ends before what sits on later ones begins (`Span.SitsOn.stop_lt`).
* The rules of the grammar are then gone through one by one. An expression and a line are on one row
  (`OnRow`), and a program is made of such lines.
-/

namespace Reckon

open Grammar

/-! ## Places in order -/

namespace Loc

variable {a b c : Loc}

theorem le_refl (a : Loc) : a ≤ a := .inr ⟨rfl, Int.le_refl _⟩

theorem le_of_lt (h : a < b) : a ≤ b := by
  rw [lt_iff] at h
  rw [le_iff]
  omega

theorem le_trans (hab : a ≤ b) (hbc : b ≤ c) : a ≤ c := by
  rw [le_iff] at *
  omega

end Loc

/-! ## Well nested trees -/

namespace Span

/-- The span is a stretch of one row, which does not end before it starts. -/
def IsStretch (s : Span) : Prop := s.start.row = s.stop.row ∧ s.start ≤ s.stop

/-- The span is a part of another. -/
def Within (s outer : Span) : Prop := outer.start ≤ s.start ∧ s.stop ≤ outer.stop

instance (s : Span) : Decidable s.IsStretch :=
  inferInstanceAs (Decidable (s.start.row = s.stop.row ∧ s.start ≤ s.stop))

instance (s outer : Span) : Decidable (s.Within outer) :=
  inferInstanceAs (Decidable (outer.start ≤ s.start ∧ s.stop ≤ outer.stop))

end Span

/-- Each node of the expression stands on one row. An operation goes from the start of its left operand
to the end of its right one, both are within it, and the left one ends before the right one starts. -/
def Expr.IsNested : Expr → Prop
  | name span _ | number span _ | input span _ | misplaced _ span => span.IsStretch
  | binary span left _ right =>
    span.IsStretch ∧ span = ⟨left.span.start, right.span.stop⟩ ∧
      left.span.stop < right.span.start ∧ left.span.Within span ∧ right.span.Within span ∧
      left.IsNested ∧ right.IsNested

instance Expr.decidableIsNested : (e : Expr) → Decidable e.IsNested
  | name span _ | number span _ | input span _ | misplaced _ span =>
    inferInstanceAs (Decidable span.IsStretch)
  | binary span left _ right =>
    have := left.decidableIsNested
    have := right.decidableIsNested
    inferInstanceAs (Decidable (span.IsStretch ∧ span = ⟨left.span.start, right.span.stop⟩ ∧
      left.span.stop < right.span.start ∧ left.span.Within span ∧ right.span.Within span ∧
      left.IsNested ∧ right.IsNested))

/-- The statement stands on one row, and the expression in it, if there is one, is within it. -/
def Stmt.IsNested : Stmt → Prop
  | assign span _ value | print span value =>
    span.IsStretch ∧ value.span.Within span ∧ value.IsNested
  | pass span | misplaced _ span => span.IsStretch

/-- The statements are well nested, they stand one after the other, and the program goes from the start
of the first to the end of the last. -/
structure Program.IsNested (p : Program) : Prop where
  statements : ∀ s ∈ p.main.statements, s.IsNested
  within : ∀ s ∈ p.main.statements, s.span.Within p.span
  apart : p.main.statements.Pairwise fun s s' => s.span.stop < s'.span.start
  span : ∀ first last, p.main.statements.head? = some first →
    p.main.statements.getLast? = some last → p.span = ⟨first.span.start, last.span.stop⟩
  /-- A program without statements stands at the start of the text. -/
  empty : p.main.statements = [] → p.span = ⟨⟨1, 1⟩, ⟨1, 1⟩⟩

section Nested

variable {e l r : Expr} {o : Operator} {s : Stmt}

theorem Expr.IsNested.isStretch (h : e.IsNested) : e.span.IsStretch := by
  cases e with
  | binary => exact h.1
  | name | number | input | misplaced => exact h

theorem Stmt.IsNested.isStretch (h : s.IsNested) : s.span.IsStretch := by
  cases s with
  | assign | print => exact h.1
  | pass | misplaced => exact h

/-- Operands that stand in order on one row make a well nested operation. -/
theorem Expr.IsNested.join (hl : l.IsNested) (hr : r.IsNested)
    (hrow : l.span.start.row = r.span.stop.row) (hlt : l.span.stop < r.span.start) :
    (l.join o r).IsNested := by
  have hleft : l.span.stop ≤ r.span.stop :=
    Loc.le_trans (Loc.le_of_lt hlt) hr.isStretch.2
  have hright : l.span.start ≤ r.span.start :=
    Loc.le_trans hl.isStretch.2 (Loc.le_of_lt hlt)
  refine ⟨⟨hrow, ?_⟩, rfl, hlt, ⟨Loc.le_refl _, hleft⟩, ⟨hright, Loc.le_refl _⟩, hl, hr⟩
  exact Loc.le_trans hl.isStretch.2 hleft

-- nothing but the order of its operands makes an operation well nested
example :
    (Expr.join (.name (.point ⟨1, 1⟩) "x") .plus (.number (.point ⟨1, 5⟩) 2)).IsNested ∧
      ¬ (Expr.join (.number (.point ⟨1, 5⟩) 2) .plus (.name (.point ⟨1, 1⟩) "x")).IsNested := by
  decide

end Nested

/-! ## Tokens in order -/

variable {ts us : List Token} {t : Token} {row : Int} {s s' : Span}

/-- Tokens as they stand in a text. -/
structure Arranged (ts : List Token) : Prop where
  isStretch : ∀ t ∈ ts, t.span.IsStretch
  /-- Every token ends before the next ones begin. -/
  apart : ts.Pairwise fun t u => t.span.stop < u.span.start
  /-- Only a newline leads to another row. -/
  lines : ∀ t u, [t, u] <:+: ts → t.kind ≠ .newline → t.span.stop.row = u.span.start.row

/-- Tokens as they stand on one row. -/
structure OnRow (row : Int) (ts : List Token) : Prop where
  isStretch : ∀ t ∈ ts, t.span.IsStretch
  apart : ts.Pairwise fun t u => t.span.stop < u.span.start
  row_eq : ∀ t ∈ ts, t.span.start.row = row

theorem Placed.isStretch {cs : List Char} {tiles : List Tile} {t : Tile} (h : Placed cs tiles t) :
    t.token.span.IsStretch := by
  refine ⟨h.oneRow, ?_⟩
  cases h with
  | @word t a b w hw hb htext hpayload hspan =>
    have hpos := Word.length_text_pos hw
    have hle := stop_le_length hw hb htext
    rw [hspan]
    by_cases hone : a = b - 1
    · rw [← hone]
      exact Loc.le_refl _
    · exact Loc.le_of_lt (Loc.ofIndex_lt (by omega) (by omega))
  | lineEnd => exact Loc.le_refl _

/-- **The tokens of a text are arranged.** -/
theorem tokenize_arranged {source : String} (h : tokenize source = .ok ts) : Arranged ts := by
  obtain ⟨tiles, rfl, htiles⟩ := tiled_of_scan [] h
  have htiling : Tiling source.toList tiles := htiles.tiling
  refine ⟨?_, List.pairwise_map.2 htiling.apart, ?_⟩
  · intro t ht
    obtain ⟨tile, htile, rfl⟩ := List.mem_map.1 ht
    exact (htiling.placed tile htile).isStretch
  · intro t u hpair hkind
    obtain ⟨pair, hinfix, hmap⟩ := List.infix_map_iff.1 hpair
    obtain ⟨a, rest, rfl, rfl, hrest⟩ := List.map_eq_cons_iff.1 hmap.symm
    obtain ⟨b, rest, rfl, rfl, hnil⟩ := List.map_eq_cons_iff.1 hrest
    obtain rfl := List.map_eq_nil_iff.1 hnil
    exact htiling.lines a b hinfix hkind

theorem Arranged.of_infix (h : Arranged us) (hts : ts <:+: us) : Arranged ts where
  isStretch t ht := h.isStretch t (hts.subset ht)
  apart := h.apart.sublist hts.sublist
  lines t u hpair := h.lines t u (hpair.trans hts)

/-- Without a newline among them, tokens stand on one row. -/
theorem Arranged.exists_onRow (h : Arranged ts) (hkind : ∀ t ∈ ts, t.kind ≠ .newline) :
    ∃ row, OnRow row ts := by
  suffices hrow : ∃ row, ∀ t ∈ ts, t.span.start.row = row by
    obtain ⟨row, hrow⟩ := hrow
    exact ⟨row, h.isStretch, h.apart, hrow⟩
  induction ts with
  | nil => exact ⟨1, List.forall_mem_nil _⟩
  | cons t ts ih =>
    rw [List.forall_mem_cons] at hkind
    obtain ⟨row, hrow⟩ := ih (h.of_infix (List.suffix_cons t ts).isInfix) hkind.2
    cases ts with
    | nil => exact ⟨t.span.start.row, by simp⟩
    | cons u ts =>
      -- the row of the first token is that of the second, which is the row of all others
      have hnext := h.lines t u (List.prefix_append [t, u] ts).isInfix hkind.1
      refine ⟨row, List.forall_mem_cons.2 ⟨?_, hrow⟩⟩
      rw [(h.isStretch t (.head _)).1, hnext]
      exact hrow u (.head _)

theorem OnRow.of_append (h : OnRow row (ts ++ us)) :
    OnRow row ts ∧ OnRow row us ∧ ∀ t ∈ ts, ∀ u ∈ us, t.span.stop < u.span.start := by
  obtain ⟨hstretch, hapart, hrow⟩ := h
  rw [List.forall_mem_append] at hstretch hrow
  obtain ⟨hts, hus, hacross⟩ := List.pairwise_append.1 hapart
  exact ⟨⟨hstretch.1, hts, hrow.1⟩, ⟨hstretch.2, hus, hrow.2⟩, hacross⟩

theorem OnRow.of_cons (h : OnRow row (t :: ts)) :
    t.span.IsStretch ∧ OnRow row ts ∧ ∀ u ∈ ts, t.span.stop < u.span.start := by
  obtain ⟨ht, hts, hacross⟩ := (show OnRow row ([t] ++ ts) from h).of_append
  exact ⟨ht.isStretch t (.head []), hts, hacross t (.head [])⟩

/-! ## Spans that sit on tokens -/

/-- The span goes from the start of one of the tokens to the end of one of them. -/
structure Span.SitsOn (ts : List Token) (s : Span) : Prop where
  start : ∃ t ∈ ts, s.start = t.span.start
  stop : ∃ t ∈ ts, s.stop = t.span.stop

namespace Span.SitsOn

theorem mono (h : s.SitsOn ts) (hsub : ts ⊆ us) : s.SitsOn us := by
  obtain ⟨⟨t, ht, hstart⟩, u, hu, hstop⟩ := h
  exact ⟨⟨t, hsub ht, hstart⟩, u, hsub hu, hstop⟩

theorem of_mem (ht : t ∈ ts) : t.span.SitsOn ts := ⟨⟨t, ht, rfl⟩, t, ht, rfl⟩

theorem join (h : s.SitsOn ts) (h' : s'.SitsOn ts) : (s.join s').SitsOn ts := ⟨h.start, h'.stop⟩

/-- What sits on earlier tokens ends before what sits on later ones begins. -/
theorem stop_lt (h : s.SitsOn ts) (h' : s'.SitsOn us)
    (hacross : ∀ t ∈ ts, ∀ u ∈ us, t.span.stop < u.span.start) : s.stop < s'.start := by
  obtain ⟨t, ht, hstop⟩ := h.stop
  obtain ⟨u, hu, hstart⟩ := h'.start
  rw [hstop, hstart]
  exact hacross t ht u hu

theorem row_eq (h : s.SitsOn ts) (hrow : OnRow row ts) : s.start.row = row ∧ s.stop.row = row := by
  obtain ⟨⟨t, ht, hstart⟩, u, hu, hstop⟩ := h
  rw [hstart, hstop, ← (hrow.isStretch u hu).1]
  exact ⟨hrow.row_eq t ht, hrow.row_eq u hu⟩

end Span.SitsOn

/-! ## Expressions -/

/-- An operator between operands that sit on the tokens before it and after it. -/
theorem Expr.IsNested.operation {l r : Expr} {o : Operator} (hrow : OnRow row (ts ++ t :: us))
    (hl : l.IsNested ∧ l.span.SitsOn ts) (hr : r.IsNested ∧ r.span.SitsOn us) :
    (l.join o r).IsNested ∧ (l.join o r).span.SitsOn (ts ++ t :: us) := by
  obtain ⟨-, -, hacross⟩ := hrow.of_append
  have hleft : l.span.SitsOn (ts ++ t :: us) := hl.2.mono (List.subset_append_left _ _)
  have hright : r.span.SitsOn (ts ++ t :: us) := by
    refine hr.2.mono fun u hu => ?_
    exact List.mem_append_right ts (.tail t hu)
  refine ⟨hl.1.join hr.1 ?_ ?_, hleft.join hright⟩
  · rw [(hleft.row_eq hrow).1, (hright.row_eq hrow).2]
  · exact hl.2.stop_lt hr.2 fun a ha u hu => hacross a ha u (.tail t hu)

namespace Grammar

variable {level : Level} {d : Nat} {e : Expr} {st : Stmt} {ss : List Stmt}

/-- **Expressions on one row are well nested.** -/
theorem Phrase.isNested (h : Phrase level d ts e) (hrow : OnRow row ts) :
    e.IsNested ∧ e.span.SitsOn ts := by
  induction h with
  | sum _ _ _ _ ihl ihr | product _ _ _ _ ihl ihr | power _ _ _ ihl ihr =>
    obtain ⟨hleft, hright, -⟩ := hrow.of_append
    exact Expr.IsNested.operation hrow (ihl hleft) (ihr hright.of_cons.2.1)
  | ofProduct _ ih | ofPower _ ih | ofPrimary _ ih => exact ih hrow
  | @parens _ ts t u _ _ _ _ ih =>
    -- the parentheses are no part of the span
    obtain ⟨-, hinner, -⟩ := hrow.of_cons
    obtain ⟨hnested, hsits⟩ := ih hinner.of_append.1
    refine ⟨hnested, hsits.mono fun u hu => ?_⟩
    exact .tail t (List.mem_append_left _ hu)
  | number | name => exact ⟨hrow.of_cons.1, .of_mem (.head [])⟩
  | @input t a s u _ _ _ _ =>
    have hfirst : t.span.SitsOn [t, a, s, u] := .of_mem (by simp)
    have hlast : u.span.SitsOn [t, a, s, u] := .of_mem (by simp)
    have hsits := hfirst.join hlast
    obtain ⟨hstart, hstop⟩ := hsits.row_eq hrow
    obtain ⟨ht, -, hafter⟩ := hrow.of_cons
    refine ⟨⟨by rw [hstart, hstop], ?_⟩, hsits⟩
    exact Loc.le_trans ht.2 (Loc.le_trans (Loc.le_of_lt (hafter u (by simp)))
      (hrow.isStretch u (by simp)).2)

/-! ## Statements -/

/-- A statement that begins with the token `t` and ends with its value or later. -/
theorem isNested_value {last : Span} (hrow : OnRow row (t :: ts)) (he : e.IsNested)
    (hsits : e.span.SitsOn ts) (hlast : last.SitsOn ts) (hle : e.span.stop ≤ last.stop) :
    (t.span.join last).IsStretch ∧ e.span.Within (t.span.join last) ∧
      (t.span.join last).SitsOn (t :: ts) := by
  have hall : (t.span.join last).SitsOn (t :: ts) :=
    Span.SitsOn.join (.of_mem (.head ts)) (hlast.mono (List.subset_cons_self t ts))
  obtain ⟨hstart, hstop⟩ := hall.row_eq hrow
  obtain ⟨ht, -, hafter⟩ := hrow.of_cons
  have hbegin : t.span.start ≤ e.span.start := by
    obtain ⟨u, hu, hustart⟩ := hsits.start
    rw [hustart]
    exact Loc.le_trans ht.2 (Loc.le_of_lt (hafter u hu))
  refine ⟨⟨by rw [hstart, hstop], ?_⟩, ⟨hbegin, hle⟩, hall⟩
  exact Loc.le_trans hbegin (Loc.le_trans he.isStretch.2 hle)

theorem Simple.isNested (h : Simple d ts st) (hrow : OnRow row ts) :
    st.IsNested ∧ st.span.SitsOn ts := by
  cases h with
  | pass => exact ⟨hrow.of_cons.1, .of_mem (.head [])⟩
  | @print _ ts t a u e _ _ h _ =>
    obtain ⟨-, hinner, -⟩ := hrow.of_cons
    obtain ⟨hts, hu, hacross⟩ := hinner.of_cons.2.1.of_append
    obtain ⟨hnested, hsits⟩ := h.isNested hts
    have hvalue : e.span.SitsOn (a :: (ts ++ [u])) :=
      hsits.mono fun v hv => .tail a (List.mem_append_left _ hv)
    have hclose : u.span.SitsOn (a :: (ts ++ [u])) := .of_mem (by simp)
    have hle : e.span.stop ≤ u.span.stop := by
      have hlt := hsits.stop_lt (.of_mem (.head [])) hacross
      exact Loc.le_trans (Loc.le_of_lt hlt) hu.of_cons.1.2
    obtain ⟨hstretch, hwithin, hall⟩ := isNested_value hrow hnested hvalue hclose hle
    exact ⟨⟨hstretch, hwithin, hnested⟩, hall⟩

theorem Assignment.isNested (h : Assignment d ts st) (hrow : OnRow row ts) :
    st.IsNested ∧ st.span.SitsOn ts := by
  cases h with
  | @assign ts t u e _ _ _ _ h =>
    obtain ⟨-, hinner, -⟩ := hrow.of_cons
    obtain ⟨hnested, hsits⟩ := h.isNested hinner.of_cons.2.1
    have hvalue : e.span.SitsOn (u :: ts) := hsits.mono (List.subset_cons_self u ts)
    obtain ⟨hstretch, hwithin, hall⟩ :=
      isNested_value hrow hnested hvalue hvalue (Loc.le_refl _)
    exact ⟨⟨hstretch, hwithin, hnested⟩, hall⟩
  | @addAssign ts t u e _ _ _ _ h =>
    obtain ⟨-, hinner, -⟩ := hrow.of_cons
    obtain ⟨hu, hts, hafter⟩ := hinner.of_cons
    obtain ⟨hnested, hsits⟩ := h.isNested hts
    -- the name that is added to stands where the operator does
    have hvalue : e.span.SitsOn (u :: ts) := hsits.mono (List.subset_cons_self u ts)
    have hname : u.span.SitsOn (u :: ts) := .of_mem (.head ts)
    have hsum : (Expr.join (.name u.span t.lexeme) .plus e).IsNested := by
      refine Expr.IsNested.join hu hnested ?_ ?_
      · exact (hname.row_eq hinner).1.trans (hvalue.row_eq hinner).2.symm
      · exact Span.SitsOn.stop_lt (.of_mem (.head [])) hsits (List.forall_mem_singleton.2 hafter)
    obtain ⟨hstretch, hwithin, hall⟩ :=
      isNested_value hrow hsum (hname.join hvalue) (hname.join hvalue) (Loc.le_refl _)
    exact ⟨⟨hstretch, hwithin, hsum⟩, hall⟩

/-! ## Programs -/

/-- Statements that sit on the tokens, one after the other. -/
structure InOrder (ts : List Token) (ss : List Stmt) : Prop where
  isNested : ∀ st ∈ ss, st.IsNested
  sitsOn : ∀ st ∈ ss, st.span.SitsOn ts
  apart : ss.Pairwise fun st st' => st.span.stop < st'.span.start

theorem InOrder.append {ss' : List Stmt} (h : InOrder ts ss) (h' : InOrder us ss')
    (hacross : ∀ t ∈ ts, ∀ u ∈ us, t.span.stop < u.span.start) :
    InOrder (ts ++ us) (ss ++ ss') := by
  refine ⟨List.forall_mem_append.2 ⟨h.isNested, h'.isNested⟩, ?_, ?_⟩
  · refine List.forall_mem_append.2 ⟨fun st hst => ?_, fun st hst => ?_⟩
    · exact (h.sitsOn st hst).mono (List.subset_append_left ts us)
    · exact (h'.sitsOn st hst).mono (List.subset_append_right ts us)
  · refine List.pairwise_append.2 ⟨h.apart, h'.apart, fun st hst st' hst' => ?_⟩
    exact (h.sitsOn st hst).stop_lt (h'.sitsOn st' hst') hacross

theorem InOrder.single (h : st.IsNested ∧ st.span.SitsOn ts) : InOrder ts [st] :=
  ⟨List.forall_mem_singleton.2 h.1, List.forall_mem_singleton.2 h.2, List.pairwise_singleton _ _⟩

theorem InOrder.cons (h : InOrder ts ss) : InOrder (t :: ts) ss :=
  ⟨h.isNested, fun st hst => (h.sitsOn st hst).mono (List.subset_cons_self t ts), h.apart⟩

theorem Line.inOrder (h : Grammar.Line d ts ss) (hrow : OnRow row ts) : InOrder ts ss := by
  induction h with
  | empty => exact ⟨List.forall_mem_nil _, List.forall_mem_nil _, .nil⟩
  | simple h _ ih =>
    obtain ⟨hts, hus, hacross⟩ := hrow.of_append
    exact (InOrder.single (h.isNested hts)).append (ih hus) hacross
  | assignment h => exact .single (h.isNested hrow)

/-- **The statements of a program stand in order.** -/
theorem Lines.inOrder (h : Lines d ts ss) (harranged : Arranged ts) : InOrder ts ss := by
  induction h with
  | last h =>
    obtain ⟨row, hrow⟩ := harranged.exists_onRow h.kind_ne_newline
    exact h.inOrder hrow
  | @cons _ _ ts us t _ _ h _ _ ih =>
    obtain ⟨row, hrow⟩ :=
      (harranged.of_infix (List.prefix_append ts (t :: us)).isInfix).exists_onRow h.kind_ne_newline
    have hrest := ih (harranged.of_infix ⟨ts ++ [t], [], by simp⟩)
    exact (h.inOrder hrow).append hrest.cons (List.pairwise_append.1 harranged.apart).2.2

end Grammar

/-- The span of a program with statements in order. -/
theorem Grammar.InOrder.program {ss : List Stmt} (h : InOrder ts ss) :
    Program.IsNested ⟨⟨ss⟩⟩ := by
  have hspan (first last : Stmt) (hfirst : ss.head? = some first) (hlast : ss.getLast? = some last) :
      Program.span ⟨⟨ss⟩⟩ = ⟨first.span.start, last.span.stop⟩ := by
    rw [Program.span, Block.span, hfirst, hlast]
    rfl
  refine ⟨h.isNested, fun st hst => ?_, h.apart, hspan, ?_⟩
  · obtain ⟨first, tail, rfl⟩ := List.exists_cons_of_ne_nil (List.ne_nil_of_mem hst)
    obtain ⟨init, last, hinit⟩ := (List.eq_nil_or_concat (first :: tail)).resolve_left (by simp)
    rw [List.concat_eq_append] at hinit
    rw [hspan first last rfl (by rw [hinit, List.getLast?_concat])]
    constructor
    · -- the statement is the first one or comes after it
      rcases List.mem_cons.1 hst with rfl | hafter
      · exact Loc.le_refl _
      · have hlt := (List.pairwise_cons.1 h.apart).1 st hafter
        exact Loc.le_trans (h.isNested first (.head tail)).isStretch.2 (Loc.le_of_lt hlt)
    · -- the statement is the last one or comes before it
      have hlast := h.isNested last (by rw [hinit]; simp)
      have hapart := h.apart
      rw [hinit] at hapart
      rcases List.mem_append.1 (hinit ▸ hst) with hbefore | hmem
      · have hlt := (List.pairwise_append.1 hapart).2.2 st hbefore last (.head [])
        exact Loc.le_trans (Loc.le_of_lt hlt) hlast.isStretch.2
      · rw [List.mem_singleton.1 hmem]
        exact Loc.le_refl _
  · intro hnil
    subst hnil
    rfl

/-- **The spans of a program are well nested.** Every statement and every expression in it stands on
one row, and a part never reaches beyond what it is a part of; that holds also for the name that `+=`
reads, which stands where the operator does. Of two operands the left one ends before the right one
starts, and the operation is what lies from the start of the one to the end of the other. Statements
stand one after the other, from the start of the program to its end. -/
theorem Program.ofSource_isNested (source : String) (p : Program)
    (h : Program.ofSource source = .ok p) : p.IsNested := by
  obtain ⟨ts, hts, hp⟩ := Program.ofSource_eq_ok_iff.1 h
  obtain ⟨d, hlines, -⟩ := Program.ofTokens_eq_ok_iff.1 hp
  exact (hlines.inOrder (tokenize_arranged hts)).program

/-- The parentheses on the first row are outside of all spans but that of the statement, and the second
row holds two statements. -/
theorem Program.ofSource_isNested_parens :
    let source := "x += (1 + y) * (input(\"?\"))\npass print(x)"
    let sum := Expr.binary ⟨⟨1, 7⟩, ⟨1, 11⟩⟩ (.number ⟨⟨1, 7⟩, ⟨1, 7⟩⟩ 1) .plus
      (.name ⟨⟨1, 11⟩, ⟨1, 11⟩⟩ "y")
    let product := Expr.binary ⟨⟨1, 7⟩, ⟨1, 26⟩⟩ sum .times (.input ⟨⟨1, 17⟩, ⟨1, 26⟩⟩ "?")
    let p : Program := ⟨⟨[
      .assign ⟨⟨1, 1⟩, ⟨1, 26⟩⟩ "x"
        (.binary ⟨⟨1, 3⟩, ⟨1, 26⟩⟩ (.name ⟨⟨1, 3⟩, ⟨1, 4⟩⟩ "x") .plus product),
      .pass ⟨⟨2, 1⟩, ⟨2, 4⟩⟩,
      .print ⟨⟨2, 6⟩, ⟨2, 13⟩⟩ (.name ⟨⟨2, 12⟩, ⟨2, 12⟩⟩ "x")]⟩⟩
    Program.ofSource source = .ok p ∧ p.IsNested := by
  intro source sum product p
  have h : Program.ofSource source = .ok p := eq_ok_of_toOption (by decide +kernel)
  exact ⟨h, Program.ofSource_isNested source p h⟩

end Reckon
