import Reckon.Proofs.Lines
import Reckon.Proofs.Running

/-!
# What a program depends on

A program sees of a session the values of the names that it reads before it gives them values, and the
lines that it reads. Nothing else makes a difference to it, and what it does is done to every session
in the same way.

What a step does is kept in an `Effect`: the input it takes, the text it writes and the values it
gives to names. `Repeats` says of a step that it has an effect in one session, and has the same one in
all sessions that are like it. The proof goes along the run:

* `Repeats.bind` puts two steps together. Behind the first of them more names may have the same values
  than before, those that it has given values to. The text that both of them read is cut in two, and
  the cut is at the end of a line, as `Repeats` demands (`Meets.first`).
* `Expr.evaluate_follows` is about expressions, which give no values, and `Stmt.repeats` about
  statements.
* `repeats_forM` goes on to all statements of a program; `isFree_cons_iff` follows the free names from
  one statement to the next.
-/

namespace Reckon

open Text

/-! ## Free names -/

/-- The expression reads the name `x`. -/
def Expr.Reads (x : String) : Expr → Prop
  | name _ ident => ident = x
  | binary _ l _ r => l.Reads x ∨ r.Reads x
  | number .. | input .. | misplaced .. => False

/-- The expression of the statement reads the name `x`. -/
def Stmt.Reads (x : String) : Stmt → Prop
  | assign _ _ value | print _ value => value.Reads x
  | pass _ | misplaced .. => False

/-- The statement gives a value to the name `x`. -/
def Stmt.Assigns (x : String) : Stmt → Prop
  | assign _ ident _ => ident = x
  | print .. | pass _ | misplaced .. => False

/-- Some statement reads the name `x` and none before it gives it a value. -/
def IsFree (ss : List Stmt) (x : String) : Prop :=
  ∃ before s after, ss = before ++ s :: after ∧ s.Reads x ∧ ∀ t ∈ before, ¬ t.Assigns x

theorem isFree_nil (x : String) : ¬ IsFree [] x := by
  rintro ⟨before, s, after, hnil, -⟩
  simp at hnil

theorem isFree_cons_iff {s : Stmt} {ss : List Stmt} {x : String} :
    IsFree (s :: ss) x ↔ s.Reads x ∨ ¬ s.Assigns x ∧ IsFree ss x := by
  constructor
  · rintro ⟨before, t, after, hss, ht, hbefore⟩
    cases before with
    | nil =>
      cases hss
      exact .inl ht
    | cons u before =>
      cases hss
      rw [List.forall_mem_cons] at hbefore
      exact .inr ⟨hbefore.1, before, t, after, rfl, ht, hbefore.2⟩
  · rintro (hs | ⟨hs, before, t, after, rfl, ht, hbefore⟩)
    · exact ⟨[], s, ss, rfl, hs, List.forall_mem_nil _⟩
    · exact ⟨s :: before, t, after, rfl, ht, List.forall_mem_cons.2 ⟨hs, hbefore⟩⟩

/-- The statements that run to their end. -/
def executed : List Stmt → Session → List Stmt
  | [], _ => []
  | s :: ss, c =>
    match s.run.run c with
    | .ok _ c' => s :: executed ss c'
    | .error _ _ => []

/-! ## Effects -/

/-- What a step does to a session. -/
structure Effect where
  /-- The input that is taken. -/
  read : List Char
  /-- The text that is written. -/
  written : String
  /-- The names that are given values, the first one first. -/
  given : List (String × Int)

namespace Effect

variable {e e' : Effect} {s : Session} {x : String}

/-- Nothing is done. -/
def none : Effect := ⟨[], "", []⟩

/-- One effect after the other. -/
def andThen (e e' : Effect) : Effect :=
  ⟨e.read ++ e'.read, e.written ++ e'.written, e.given ++ e'.given⟩

/-- The session after the effect, with `rest` left to be read. -/
def on (e : Effect) (s : Session) (rest : List Char) : Session :=
  ⟨e.given.foldl (fun vars b => vars.set b.1 b.2) s.vars, s.output ++ e.written, rest⟩

/-- A value is given to the name `x`. -/
def Gives (e : Effect) (x : String) : Prop := x ∈ e.given.map Prod.fst

theorem on_none (s : Session) : none.on s s.input = s := by
  simp [on, none]

theorem on_andThen (e e' : Effect) (s : Session) (mid rest : List Char) :
    (e.andThen e').on s rest = e'.on (e.on s mid) rest := by
  simp [on, andThen, String.append_assoc]

theorem gives_andThen : (e.andThen e').Gives x ↔ e.Gives x ∨ e'.Gives x := by
  simp only [Gives, andThen, List.map_append, List.mem_append]

/-- A name that is given no value keeps the one that it has. -/
theorem get?_on_of_not_gives (h : ¬ e.Gives x) (s : Session) (rest : List Char) :
    (e.on s rest).vars.get? x = s.vars.get? x := by
  obtain ⟨read, written, bs⟩ := e
  induction bs generalizing s with
  | nil => rfl
  | cons b bs ih =>
    rw [Gives, List.map_cons, List.mem_cons, not_or] at h
    refine (ih { s with vars := s.vars.set b.1 b.2 } h.2).trans ?_
    rw [Variables.get?_set, if_neg h.1]

/-- The value that a name is given last is the one that it has, whatever it had before. -/
theorem exists_get?_on (h : e.Gives x) :
    ∃ n, ∀ (s : Session) (rest : List Char), (e.on s rest).vars.get? x = some n := by
  obtain ⟨read, written, bs⟩ := e
  induction bs with
  | nil => cases h
  | cons b bs ih =>
    by_cases hlater : Gives ⟨read, written, bs⟩ x
    · obtain ⟨n, hn⟩ := ih hlater
      exact ⟨n, fun s rest => hn { s with vars := s.vars.set b.1 b.2 } rest⟩
    · rw [Gives, List.map_cons, List.mem_cons] at h
      refine ⟨b.2, fun s rest => ?_⟩
      refine (get?_on_of_not_gives hlater { s with vars := s.vars.set b.1 b.2 } rest).trans ?_
      rw [Variables.get?_set, if_pos (h.resolve_right hlater)]

/-- Sessions agree on what the effect gives a value to, and still agree on what they agreed on. -/
theorem get?_on_congr {s s' : Session} (h : ¬ e.Gives x → s'.vars.get? x = s.vars.get? x)
    (rest rest' : List Char) :
    (e.on s' rest').vars.get? x = (e.on s rest).vars.get? x := by
  by_cases hx : e.Gives x
  · obtain ⟨n, hn⟩ := exists_get?_on hx
    rw [hn, hn]
  · rw [get?_on_of_not_gives hx, get?_on_of_not_gives hx, h hx]

end Effect

/-! ## Steps that can be repeated -/

namespace Run

variable {α β : Type} {x : Run α} {f : α → Run β} {a : α} {r : Except Error α} {s s' : Session}
  {e e' : Effect} {rest rest' : List Char} {alike alike' : Session → Prop}

/-- How a run ended. -/
def resultOf : EStateM.Result Error Session α → Except Error α
  | .ok a _ => .ok a
  | .error err _ => .error err

/-- A run that ends with `r` in the session `s`. -/
def answer : (r : Except Error α) → (s : Session) → EStateM.Result Error Session α
  | .ok a, s => .ok a s
  | .error err, s => .error err s

@[simp] theorem resultOf_answer (r : Except Error α) (s : Session) : resultOf (answer r s) = r := by
  cases r <;> rfl

@[simp] theorem sessionAfter_answer (r : Except Error α) (s : Session) :
    sessionAfter (answer r s) = s := by
  cases r <;> rfl

/-- Why a run failed, if the program is to blame. -/
def causeOf? : Except Error α → Option Cause
  | .error (.diagnostic d) => some d.cause
  | _ => none

/-- There was input to read whenever a number was asked for. -/
def EndsInTime (r : Except Error α) : Prop := causeOf? r ≠ some (.runtime .endOfInput)

/-- What is asked of a session in which the same is to happen again: it is `alike`, and its input
begins with the lines that were read. -/
structure Meets (alike : Session → Prop) (r : Except Error α) (e : Effect) (s' : Session)
    (rest' : List Char) : Prop where
  inTime : EndsInTime r
  lines : IsWholeLines e.read
  alike : alike s'
  input : s'.input = e.read ++ rest'

/-- In the session `s` the step ends with `r`, has the effect `e` and leaves `rest` to be read. It has
read whole lines, or all that there was. The same happens in all sessions that are `alike`. -/
structure Repeats (alike : Session → Prop) (x : Run α) (s : Session) (r : Except Error α)
    (e : Effect) (rest : List Char) : Prop where
  input : s.input = e.read ++ rest
  lines : IsWholeLines e.read ∨ rest = []
  run : x.run s = answer r (e.on s rest)
  again : ∀ s' rest', Meets alike r e s' rest' → x.run s' = answer r (e.on s' rest')

/-- **The first of two steps ends at the end of a line** if both of them together do. It may have read
an unfinished line only if there was no more input, and then the second step reads nothing. -/
theorem Meets.first {r : Except Error β} (hx : Repeats alike x s (.ok a) e (e'.read ++ rest))
    (h : Meets alike r (e.andThen e') s' rest') :
    Meets alike (.ok a : Except Error α) e s' (e'.read ++ rest') where
  inTime := nofun
  lines := by
    rcases hx.lines with hlines | hnil
    · exact hlines
    · have hlines := h.lines
      rwa [Effect.andThen, (List.append_eq_nil_iff.1 hnil).1, List.append_nil] at hlines
  alike := h.alike
  input := by rw [h.input, Effect.andThen, List.append_assoc]

theorem Meets.second {r : Except Error β} (h : Meets alike r (e.andThen e') s' rest')
    (halike : alike' (e.on s' (e'.read ++ rest'))) :
    Meets alike' r e' (e.on s' (e'.read ++ rest')) rest' :=
  ⟨h.inTime, h.lines.of_append, halike, rfl⟩

namespace Repeats

/-- **One step after the other.** -/
theorem bind {r : Except Error β} (hx : Repeats alike x s (.ok a) e rest)
    (hf : Repeats alike' (f a) (e.on s rest) r e' rest')
    (halike : ∀ s' rest', alike s' → alike' (e.on s' rest')) :
    Repeats alike (x >>= f) s r (e.andThen e') rest' := by
  obtain rfl : rest = e'.read ++ rest' := hf.input
  refine ⟨?_, ?_, ?_, fun s' rest'' h => ?_⟩
  · rw [hx.input, Effect.andThen, List.append_assoc]
  · rcases hx.lines with hlines | hnil
    · exact hf.lines.imp_left hlines.append
    · exact .inr (List.append_eq_nil_iff.1 hnil).2
  · rw [EStateM.run_bind, hx.run, Effect.on_andThen]
    exact hf.run
  · rw [EStateM.run_bind, hx.again _ _ (h.first hx), Effect.on_andThen]
    exact hf.again _ _ (h.second (halike _ _ h.alike))

/-- What comes after a failure makes no difference. -/
theorem bind_error {err : Error} (hx : Repeats alike x s (.error err) e rest) :
    Repeats alike (x >>= f) s (.error err : Except Error β) e rest := by
  refine ⟨hx.input, hx.lines, ?_, fun s' rest' h => ?_⟩
  · rw [EStateM.run_bind, hx.run]
    rfl
  · have htime : EndsInTime (.error err : Except Error α) := by
      have htime := h.inTime
      cases err <;> exact htime
    have hmeets : Meets alike (.error err : Except Error α) e s' rest' :=
      ⟨htime, h.lines, h.alike, h.input⟩
    rw [EStateM.run_bind, hx.again _ _ hmeets]
    rfl

theorem mono (hx : Repeats alike x s r e rest) (h : ∀ s', alike' s' → alike s') :
    Repeats alike' x s r e rest :=
  ⟨hx.input, hx.lines, hx.run, fun _ _ hmeets =>
    hx.again _ _ ⟨hmeets.inTime, hmeets.lines, h _ hmeets.alike, hmeets.input⟩⟩

/-- A step that reads nothing. -/
theorem of_run (hread : e.read = []) (hs : alike s)
    (h : ∀ s, alike s → x.run s = answer r (e.on s s.input)) : Repeats alike x s r e s.input where
  input := by rw [hread, List.nil_append]
  lines := .inl (.inl hread)
  run := h s hs
  again s' rest' hmeets := by
    have hinput : s'.input = rest' := by rw [hmeets.input, hread, List.nil_append]
    rw [h s' hmeets.alike, hinput]

theorem ofExcept (hs : alike s) (r : Except Error α) :
    Repeats alike (Run.ofExcept r) s r .none s.input := by
  refine .of_run rfl hs fun s _ => ?_
  rw [Effect.on_none]
  cases r <;> rfl

/-- A number is read from the first line, and only at the end of the input is it missed. -/
theorem readNumber (span : Span) (prompt : String) (s : Session) :
    Repeats alike (Reckon.readNumber span prompt) s (numberOnLine span (firstLine s.input))
      ⟨firstLine s.input, prompt, []⟩ (afterFirstLine s.input) := by
  have hrun (s : Session) : (Reckon.readNumber span prompt).run s =
      answer (numberOnLine span (firstLine s.input))
        ⟨s.vars, s.output ++ prompt, afterFirstLine s.input⟩ := by
    rw [readNumber_eq]
    show (Run.ofExcept _).run _ = _
    cases numberOnLine span (firstLine s.input) <;> rfl
  refine ⟨(firstLine_append_afterFirstLine _).symm, isWholeLines_firstLine _, hrun s,
    fun s' rest' h => ?_⟩
  have hne : firstLine s.input ≠ [] := fun hnil => h.inTime (by rw [hnil]; rfl)
  have hmem : '\n' ∈ firstLine s.input := h.lines.mem hne
  rw [hrun, h.input, firstLine_append_of_mem hmem, afterFirstLine_append_of_mem hmem,
    firstLine_firstLine, afterFirstLine_firstLine]
  rfl

end Repeats

/-! ## Expressions -/

/-- The names have the same values. -/
def AgreesOn (names : String → Prop) (s s' : Session) : Prop :=
  ∀ x, names x → s'.vars.get? x = s.vars.get? x

theorem AgreesOn.refl (names : String → Prop) (s : Session) : AgreesOn names s s := fun _ _ => rfl

/-- The step gives no values, and depends on those of the names. -/
def Follows (names : String → Prop) (x : Run α) : Prop :=
  ∀ s, ∃ r e rest, e.given = [] ∧ Repeats (AgreesOn names s) x s r e rest

namespace Follows

variable {names : String → Prop}

theorem bind (hx : Follows names x) (hf : ∀ a, Follows names (f a)) : Follows names (x >>= f) := by
  intro s
  obtain ⟨r, e, rest, hgiven, hx⟩ := hx s
  cases r with
  | error err => exact ⟨.error err, e, rest, hgiven, hx.bind_error⟩
  | ok a =>
    obtain ⟨r, e', rest', hgiven', hf⟩ := hf a (e.on s rest)
    refine ⟨r, e.andThen e', rest', by simp [Effect.andThen, hgiven, hgiven'], hx.bind hf ?_⟩
    intro s' rest'' hagrees y hy
    exact Effect.get?_on_congr (fun _ => hagrees y hy) _ _

theorem mono {names' : String → Prop} (hx : Follows names x) (h : ∀ y, names y → names' y) :
    Follows names' x := by
  intro s
  obtain ⟨r, e, rest, hgiven, hx⟩ := hx s
  exact ⟨r, e, rest, hgiven, hx.mono fun s' hagrees y hy => hagrees y (h y hy)⟩

theorem ofExcept (r : Except Error α) : Follows names (Run.ofExcept r) :=
  fun s => ⟨r, .none, s.input, rfl, .ofExcept (.refl _ s) r⟩

theorem ofResult (span : Span) (result : Except RuntimeCause α) :
    Follows names (Run.ofResult span result) := by
  cases result with
  | ok a => exact .ofExcept (.ok a)
  | error cause => exact .ofExcept (.error _)

theorem write (text : String) : Follows names (Run.write text) := fun s =>
  ⟨.ok (), ⟨[], text, []⟩, s.input, rfl, .of_run rfl (.refl _ s) fun _ _ => rfl⟩

end Follows

end Run

open Run

theorem Expr.evaluateLeaf_follows (e : Expr) : Follows (e.Reads ·) e.evaluateLeaf := by
  cases e with
  | number span value => exact .ofResult span _
  | name span ident =>
    intro s
    let found (value : Option Int) : Except Error Int :=
      value.elim (.error (.diagnostic ⟨.runtime (.undefinedName ident), span⟩)) .ok
    have hrun (s : Session) :
        (name span ident).evaluateLeaf.run s = answer (found (s.vars.get? ident)) s := by
      cases hget : s.vars.get? ident <;> simp [evaluateLeaf, hget, found, answer]
    refine ⟨found (s.vars.get? ident), .none, s.input, rfl, .of_run rfl (.refl _ s) fun s' h => ?_⟩
    rw [hrun, h ident rfl, Effect.on_none]
  | input span prompt => exact fun s => ⟨_, _, _, rfl, .readNumber span prompt s⟩
  | binary | misplaced => exact .ofExcept (.error _)

/-- **An expression depends on the names that it reads.** -/
theorem Expr.evaluate_follows (e : Expr) : Follows (e.Reads ·) e.evaluate := by
  rw [Expr.evaluate_eq]
  induction e with
  | binary span l o r ihl ihr =>
    refine (ihl.mono fun _ h => .inl h).bind fun left => ?_
    exact (ihr.mono fun _ h => .inr h).bind fun right => .ofResult span _
  | name | number | input | misplaced => exact Expr.evaluateLeaf_follows _

/-! ## Statements -/

/-- A statement that assigns nothing is a step that gives no values. -/
theorem Stmt.repeats_of_follows {st : Stmt} (h : Follows (st.Reads ·) st.run)
    (hnone : ∀ x, ¬ st.Assigns x) (s : Session) :
    ∃ r e rest, Repeats (AgreesOn (st.Reads ·) s) st.run s r e rest ∧
      ∀ x, e.Gives x ↔ r = .ok () ∧ st.Assigns x := by
  obtain ⟨r, e, rest, hgiven, h⟩ := h s
  exact ⟨r, e, rest, h, fun x => by simp [Effect.Gives, hgiven, hnone x]⟩

/-- **A statement depends on the names that its expression reads**, and gives a value to the name that
it assigns if it runs to its end. -/
theorem Stmt.repeats (st : Stmt) (s : Session) :
    ∃ r e rest, Repeats (AgreesOn (st.Reads ·) s) st.run s r e rest ∧
      ∀ x, e.Gives x ↔ r = .ok () ∧ st.Assigns x := by
  cases st with
  | assign span ident value =>
    obtain ⟨r, e, rest, hgiven, h⟩ := value.evaluate_follows s
    cases r with
    | error err =>
      exact ⟨.error err, e, rest, h.bind_error, fun x => by simp [Effect.Gives, hgiven]⟩
    | ok n =>
      have hassign : Repeats (fun _ => True) (Run.assign ident n) (e.on s rest) (.ok ())
          ⟨[], "", [(ident, n)]⟩ rest :=
        .of_run rfl trivial fun s _ => by simp [Effect.on, answer]
      refine ⟨.ok (), _, rest, h.bind hassign fun _ _ _ => trivial, fun x => ?_⟩
      rw [Effect.gives_andThen]
      simp [Effect.Gives, hgiven, Assigns, eq_comm]
  | print span value =>
    refine repeats_of_follows ?_ (fun _ => id) s
    exact value.evaluate_follows.bind fun n => .write _
  | pass span => exact repeats_of_follows (.ofExcept (.ok ())) (fun _ => id) s
  | misplaced kind span => exact repeats_of_follows (.ofExcept (.error _)) (fun _ => id) s

section Statements

variable {st : Stmt} {ss : List Stmt} {s c : Session}

theorem executed_of_ok (h : st.run.run s = answer (.ok ()) c) :
    executed (st :: ss) s = st :: executed ss c := by
  rw [executed, h]
  rfl

theorem executed_of_error {err : Error} (h : st.run.run s = answer (.error err) c) :
    executed (st :: ss) s = [] := by
  rw [executed, h]
  rfl

/-- **Statements depend on their free names.** The names on which two sessions agree are followed
along the run: a name that is read later on agrees from the start, or was given the same value in
both. -/
theorem repeats_forM (ss : List Stmt) (s : Session) :
    ∃ r e rest, Repeats (AgreesOn (IsFree ss) s) (ss.forM Stmt.run) s r e rest ∧
      (∀ x, e.Gives x ↔ ∃ t ∈ executed ss s, t.Assigns x) ∧
      ∀ s' rest', Meets (AgreesOn (IsFree ss) s) r e s' rest' → executed ss s' = executed ss s := by
  induction ss generalizing s with
  | nil =>
    refine ⟨.ok (), .none, s.input, .ofExcept (.refl _ s) (.ok ()), fun x => ?_, fun _ _ _ => rfl⟩
    simp [Effect.Gives, Effect.none, executed]
  | cons st ss ih =>
    obtain ⟨r, e, rest, hst, hgives⟩ := st.repeats s
    replace hst : Repeats (AgreesOn (IsFree (st :: ss)) s) st.run s r e rest :=
      hst.mono fun s' hagrees x hx => hagrees x (isFree_cons_iff.2 (.inl hx))
    cases r with
    | error err =>
      refine ⟨.error err, e, rest, hst.bind_error, fun x => ?_, fun s' rest' hmeets => ?_⟩
      · rw [hgives, executed_of_error hst.run]
        simp
      · rw [executed_of_error hst.run, executed_of_error (hst.again _ _ hmeets)]
    | ok =>
      obtain ⟨r, e', rest', hss, hgives', hexecuted⟩ := ih (e.on s rest)
      have hagrees (s' : Session) (rest' : List Char) (h : AgreesOn (IsFree (st :: ss)) s s') :
          AgreesOn (IsFree ss) (e.on s rest) (e.on s' rest') := by
        intro x hx
        refine Effect.get?_on_congr (fun hnot => h x (isFree_cons_iff.2 (.inr ⟨?_, hx⟩))) _ _
        exact fun hassigns => hnot ((hgives x).2 ⟨rfl, hassigns⟩)
      refine ⟨r, e.andThen e', rest', hst.bind hss hagrees, fun x => ?_, fun s' rest'' hmeets => ?_⟩
      · rw [Effect.gives_andThen, hgives, hgives', executed_of_ok hst.run]
        simp
      · obtain rfl : rest = e'.read ++ rest' := hss.input
        rw [executed_of_ok hst.run, executed_of_ok (hst.again _ _ (hmeets.first hst)),
          hexecuted _ _ (hmeets.second (hagrees _ _ hmeets.alike))]

end Statements

/-- **A program depends on its free names and on the lines that it reads.** Take two sessions in which
the free names have the same values, or none. Let the run in the first one read the lines `q` and not
miss any, and let the input of the second one begin with these lines, too. Then the runs write the
same, read the same, and end in the same way, having executed the same statements. The names that
these assign have the same values at the end, and all other names keep theirs. -/
theorem Program.run_depends (p : Program) (c c' : Session) (q rest : List Char)
    (hfree : ∀ x, IsFree p.main.statements x → c'.vars.get? x = c.vars.get? x)
    (hread : c.input = q ++ (sessionAfter (p.run.run c)).input) (hq : IsWholeLines q)
    (htime : EndsInTime (resultOf (p.run.run c))) (hinput : c'.input = q ++ rest) :
    let final := sessionAfter (p.run.run c)
    let final' := sessionAfter (p.run.run c')
    resultOf (p.run.run c') = resultOf (p.run.run c) ∧
      (∃ text, final.output = c.output ++ text ∧ final'.output = c'.output ++ text) ∧
      final'.input = rest ∧
      executed p.main.statements c' = executed p.main.statements c ∧
      (∀ x, (∃ t ∈ executed p.main.statements c, t.Assigns x) →
        ∃ n, final.vars.get? x = some n ∧ final'.vars.get? x = some n) ∧
      ∀ x, (∀ t ∈ executed p.main.statements c, ¬ t.Assigns x) →
        final.vars.get? x = c.vars.get? x ∧ final'.vars.get? x = c'.vars.get? x := by
  intro final final'
  obtain ⟨r, e, left, hrun, hgives, hexecuted⟩ := repeats_forM p.main.statements c
  have hcourse : p.run.run c = answer r (e.on c left) := hrun.run
  rw [hcourse, resultOf_answer] at htime
  -- what is read is known from what is left
  have hleft : (sessionAfter (p.run.run c)).input = left := by
    rw [hcourse, sessionAfter_answer]
    rfl
  obtain rfl : q = e.read := by
    rw [hleft, hrun.input] at hread
    exact (List.append_cancel_right hread).symm
  have hmeets : Meets (AgreesOn (IsFree p.main.statements) c) r e c' rest :=
    ⟨htime, hq, hfree, hinput⟩
  have hcourse' : p.run.run c' = answer r (e.on c' rest) := hrun.again c' rest hmeets
  have hfinal : final = e.on c left := by rw [← sessionAfter_answer r (e.on c left), ← hcourse]
  have hfinal' : final' = e.on c' rest := by rw [← sessionAfter_answer r (e.on c' rest), ← hcourse']
  rw [hfinal, hfinal', hcourse, hcourse', resultOf_answer, resultOf_answer]
  refine ⟨rfl, ⟨e.written, rfl, rfl⟩, rfl, hexecuted c' rest hmeets, fun x hx => ?_, fun x hx => ?_⟩
  · obtain ⟨n, hn⟩ := Effect.exists_get?_on ((hgives x).2 hx)
    exact ⟨n, hn c left, hn c' rest⟩
  · have hnot : ¬ e.Gives x := fun hgiven => by
      obtain ⟨t, ht, hassigns⟩ := (hgives x).1 hgiven
      exact hx t ht hassigns
    exact ⟨Effect.get?_on_of_not_gives hnot c left, Effect.get?_on_of_not_gives hnot c' rest⟩

/-- The third statement fails, so that `y` is not assigned: it keeps its value in the first session,
and has none in the second. -/
theorem Program.run_depends_broken :
    let here := Span.point .origin
    let p : Program := ⟨⟨[
      .assign here "x" (.binary here (.name here "x") .plus (.input here "? ")),
      .print here (.name here "x"),
      .assign here "y" (.binary here (.name here "x") .div (.number here 0))]⟩⟩
    let c : Session := ⟨.ofList [("x", 40), ("y", 5)], "", "2\n3\n".toList⟩
    let c' : Session := ⟨.ofList [("x", 40)], "> ", "2\nend".toList⟩
    (∀ x, IsFree p.main.statements x → c'.vars.get? x = c.vars.get? x) ∧
      c.input = "2\n".toList ++ (sessionAfter (p.run.run c)).input ∧
      IsWholeLines "2\n".toList ∧ EndsInTime (resultOf (p.run.run c)) ∧
      causeOf? (resultOf (p.run.run c')) = some (.runtime .divisionByZero) ∧
      (sessionAfter (p.run.run c')).input = "end".toList ∧
      (∃ n, (sessionAfter (p.run.run c)).vars.get? "x" = some n ∧
        (sessionAfter (p.run.run c')).vars.get? "x" = some n) ∧
      (sessionAfter (p.run.run c')).vars.get? "y" = c'.vars.get? "y" := by
  intro here p c c'
  have hfree (x : String) (hx : IsFree p.main.statements x) : c'.vars.get? x = c.vars.get? x := by
    obtain rfl : "x" = x := by
      simpa [p, isFree_cons_iff, isFree_nil, Stmt.Reads, Expr.Reads, Stmt.Assigns] using hx
    decide +kernel
  have hread : c.input = "2\n".toList ++ (sessionAfter (p.run.run c)).input := by decide +kernel
  have hq : IsWholeLines "2\n".toList := .inr (by decide)
  have hcause : causeOf? (resultOf (p.run.run c)) = some (.runtime .divisionByZero) := by
    decide +kernel
  have htime : EndsInTime (resultOf (p.run.run c)) := by
    rw [EndsInTime, hcause]
    decide
  have hinput : c'.input = "2\n".toList ++ "end".toList := by decide
  have hexecuted : executed p.main.statements c = p.main.statements.take 2 := by decide +kernel
  obtain ⟨hsame, -, hrest, -, hassigned, hkept⟩ :=
    Program.run_depends p c c' "2\n".toList "end".toList hfree hread hq htime hinput
  refine ⟨hfree, hread, hq, htime, hsame ▸ hcause, hrest, hassigned "x" ?_, (hkept "y" ?_).2⟩
  · rw [hexecuted]
    exact ⟨_, .head _, rfl⟩
  · rw [hexecuted]
    simp [p, Stmt.Assigns]

end Reckon
