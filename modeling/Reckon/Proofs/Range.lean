import Reckon.Proofs.Running

/-!
# Values stay within 32 bits

Where the variables of a session are words, signed numbers of 32 bits, they stay words, and so are all
values that the session gives and writes. Not every number is checked on its way: a remainder is not,
nor is the value of a variable, nor are the powers that are known at once.

* `Operator.apply_isWord` is about single operations.
* `Run.KeepsWords` says of a step that it keeps the variables words, also if it fails, and what it
  gives if it succeeds. It is closed under sequencing.
* `Utterance` tells apart what a program writes. `Call.run_writes` shows that the utterances of a call
  make up its output, so that there is a meaning to the values that were written.
-/

namespace Reckon

/-! ## Operators -/

section Operators

variable {base exponent left right n m : Int} {failure : RuntimeCause}

theorem isWord_of_checked (h : checked failure n = .ok m) : IsWord m := by
  unfold checked at h
  split at h
  · cases h
    assumption
  · cases h

/-- A remainder lies between zero and the dividend. -/
theorem isWord_tmod (h : IsWord left) : IsWord (left.tmod right) := by
  obtain ⟨hmin, hmax⟩ := h
  have habs : (left.tmod right).natAbs ≤ left.natAbs := by
    rw [Int.natAbs_tmod]
    exact Nat.mod_le _ _
  rw [minWord] at hmin
  rw [maxWord] at hmax
  rw [IsWord, minWord, maxWord]
  rcases Int.le_total 0 left with hleft | hleft
  · have hsign := Int.tmod_nonneg right hleft
    omega
  · have hsign := Int.tmod_nonneg right (Int.neg_nonneg_of_nonpos hleft)
    rw [Int.neg_tmod] at hsign
    omega

theorem isWord_of_power (h : power base exponent = .ok n) : IsWord n := by
  unfold power at h
  split at h
  · cases h
    decide
  split at h
  · next hbase =>
    cases h
    split
    · decide
    · rcases hbase with rfl | rfl <;> decide
  split at h
  · cases h
    split <;> decide
  split at h
  · cases h
  · exact isWord_of_checked h

/-- **Operators give words.** That the left operand is one matters to remainders only. -/
theorem Operator.apply_isWord {op : Operator} (hleft : IsWord left)
    (h : op.apply left right = .ok n) : IsWord n := by
  cases op with
  | plus | minus | times => exact isWord_of_checked h
  | div =>
    rw [Operator.apply] at h
    split at h
    · cases h
    · exact isWord_of_checked h
  | mod =>
    by_cases hright : right = 0
    · rw [Operator.apply, if_pos hright] at h
      cases h
    · rw [Operator.apply_mod hright] at h
      cases h
      exact isWord_tmod hleft
  | pow => exact isWord_of_power h
  | assign | addAssign => cases h

end Operators

/-! ## Steps -/

/-- The value of each variable is a word. -/
def Variables.AreWords (vars : Variables) : Prop :=
  ∀ ident n, vars.get? ident = some n → IsWord n

theorem Variables.AreWords.set {vars : Variables} (h : vars.AreWords) (ident : String) {n : Int}
    (hn : IsWord n) : (vars.set ident n).AreWords := by
  intro other m hm
  rw [Variables.get?_set] at hm
  split at hm
  · cases hm
    exact hn
  · exact h other m hm

namespace Run

variable {α β : Type} {Q : α → Prop} {R : β → Prop}

/-- Variables that are words are still words after the step, even if it fails, and what it gives
satisfies `Q`. -/
def KeepsWords (Q : α → Prop) (x : Run α) : Prop := ∀ s, s.vars.AreWords →
  (sessionAfter (x.run s)).vars.AreWords ∧ ∀ a s', x.run s = .ok a s' → Q a

namespace KeepsWords

theorem pure {a : α} (h : Q a) : KeepsWords Q (Pure.pure a : Run α) := by
  intro s hs
  refine ⟨hs, fun b s' hb => ?_⟩
  cases hb
  exact h

theorem throw (e : Error) : KeepsWords Q (MonadExcept.throw e : Run α) := fun _ hs => ⟨hs, nofun⟩

theorem get : KeepsWords (fun s => s.vars.AreWords) (MonadState.get : Run Session) := by
  intro s hs
  refine ⟨hs, fun b s' hb => ?_⟩
  cases hb
  exact hs

theorem write (text : String) : KeepsWords (fun _ => True) (Run.write text) :=
  fun _ hs => ⟨hs, fun _ _ _ => trivial⟩

theorem readLine : KeepsWords (fun _ => True) Run.readLine :=
  fun _ hs => ⟨hs, fun _ _ _ => trivial⟩

theorem assign (ident : String) {n : Int} (hn : IsWord n) :
    KeepsWords (fun _ => True) (Run.assign ident n) :=
  fun _ hs => ⟨hs.set ident hn, fun _ _ _ => trivial⟩

theorem bind {x : Run α} {f : α → Run β} (hx : KeepsWords Q x)
    (hf : ∀ a, Q a → KeepsWords R (f a)) : KeepsWords R (x >>= f) := by
  intro s hs
  obtain ⟨hvars, hvalue⟩ := hx s hs
  rw [EStateM.run_bind]
  cases hrun : x.run s with
  | ok a s' =>
    rw [hrun] at hvars
    exact hf a (hvalue a s' hrun) s' hvars
  | error e s' =>
    rw [hrun] at hvars
    exact ⟨hvars, nofun⟩

theorem ofExcept (result : Except Error α) (h : ∀ a, result = .ok a → Q a) :
    KeepsWords Q (Run.ofExcept result) := by
  cases result with
  | ok a => exact .pure (h a rfl)
  | error e => exact .throw e

/-- Reading a text does not touch the variables. -/
theorem ofText (result : Except Error α) : KeepsWords (fun _ => True) (Run.ofExcept result) :=
  ofExcept result fun _ _ => trivial

theorem ofResult (span : Span) (result : Except RuntimeCause α) (h : ∀ a, result = .ok a → Q a) :
    KeepsWords Q (Run.ofResult span result) := by
  cases result with
  | ok a => exact .pure (h a rfl)
  | error cause => exact .throw _

end KeepsWords

end Run

open Run (KeepsWords)

/-- Only words are accepted of the user. -/
theorem isWord_of_numberOnLine {span : Span} {line : List Char} {n : Int}
    (h : numberOnLine span line = .ok n) : IsWord n := by
  unfold numberOnLine at h
  dsimp only at h
  split at h
  · cases h
  split at h
  · cases h
  split at h
  · cases h
  split at h
  · cases h
    assumption
  · cases h

theorem Expr.evaluateLeaf_keepsWords (e : Expr) : KeepsWords IsWord e.evaluateLeaf := by
  cases e with
  | number span value => exact .ofResult span _ fun _ => isWord_of_checked
  | name span ident =>
    refine KeepsWords.get.bind fun s hs => ?_
    cases hget : s.vars.get? ident with
    | none => exact .throw _
    | some value => exact .pure (hs ident value hget)
  | input span prompt =>
    rw [Expr.evaluateLeaf, readNumber_eq]
    exact (KeepsWords.write prompt).bind fun _ _ => KeepsWords.readLine.bind fun line _ =>
      .ofExcept _ fun _ => isWord_of_numberOnLine
  | binary | misplaced => exact .throw _

/-- **The value of an expression is a word.** -/
theorem Expr.evaluate_keepsWords (e : Expr) : KeepsWords IsWord e.evaluate := by
  rw [Expr.evaluate_eq]
  induction e with
  | binary span l o r ihl ihr =>
    exact ihl.bind fun left hleft => ihr.bind fun right _ =>
      .ofResult span _ fun _ => Operator.apply_isWord hleft
  | name | number | input | misplaced => exact Expr.evaluateLeaf_keepsWords _

theorem Stmt.run_keepsWords (st : Stmt) : KeepsWords (fun _ => True) st.run := by
  cases st with
  | assign span ident value =>
    exact (Expr.evaluate_keepsWords value).bind fun _ hn => .assign ident hn
  | print span value => exact (Expr.evaluate_keepsWords value).bind fun _ _ => .write _
  | pass span => exact .pure trivial
  | misplaced kind span => exact .throw _

/-- **Statements keep the variables words**, as far as they are run. -/
theorem Stmts.run_keepsWords (ss : List Stmt) : KeepsWords (fun _ => True) (ss.forM Stmt.run) := by
  induction ss with
  | nil => exact .pure trivial
  | cons st ss ih => exact (Stmt.run_keepsWords st).bind fun _ _ => ih

/-! ## What is written -/

/-- Something that a running program writes. -/
inductive Utterance
  /-- What a request for input asks. -/
  | prompt (text : String)
  /-- A value that is printed. -/
  | value (n : Int)
deriving DecidableEq, Repr

namespace Utterance

/-- The text of an utterance; a value has a line to itself. -/
def text : Utterance → String
  | prompt text => text
  | value n => s!"{n}\n"

/-- The text of utterances one after the other. -/
def texts : List Utterance → String
  | [] => ""
  | u :: us => u.text ++ texts us

theorem texts_append (us vs : List Utterance) : texts (us ++ vs) = texts us ++ texts vs := by
  induction us with
  | nil => simp [texts]
  | cons u us ih => rw [List.cons_append, texts, texts, ih, String.append_assoc]

end Utterance

open Utterance (texts)

namespace Run

variable {α β : Type} {us : Session → List Utterance} {vs : α → Session → List Utterance}

/-- What is uttered once the step has been made, if it succeeds. -/
def next (x : Run α) (vs : α → Session → List Utterance) (s : Session) : List Utterance :=
  match x.run s with
  | .ok a s' => vs a s'
  | .error .. => []

/-- What the step writes is the text of the utterances `us`, even if it fails. -/
def Writes (us : Session → List Utterance) (x : Run α) : Prop :=
  ∀ s, (sessionAfter (x.run s)).output = s.output ++ texts (us s)

/-- The step writes nothing. -/
def IsSilent (x : Run α) : Prop := Writes (fun _ => []) x

theorem Writes.bind {x : Run α} {f : α → Run β} (hx : Writes us x) (hf : ∀ a, Writes (vs a) (f a)) :
    Writes (fun s => us s ++ x.next vs s) (x >>= f) := by
  intro s
  have houtput := hx s
  show _ = s.output ++ texts (us s ++ x.next vs s)
  rw [EStateM.run_bind, next, Utterance.texts_append, ← String.append_assoc, ← houtput]
  cases x.run s with
  | ok a s' => exact hf a s'
  | error e s' => exact String.append_empty.symm

theorem Writes.bind_silent {x : Run α} {f : α → Run β} (hx : Writes us x)
    (hf : ∀ a, IsSilent (f a)) : Writes us (x >>= f) := by
  intro s
  have hnil : x.next (fun _ _ => []) s = [] := by
    rw [next]
    cases x.run s <;> rfl
  have hboth : _ = s.output ++ texts (us s ++ x.next (fun _ _ => []) s) := hx.bind hf s
  rwa [hnil, List.append_nil] at hboth

theorem IsSilent.bind {x : Run α} {f : α → Run β} (hx : IsSilent x) (hf : ∀ a, Writes (vs a) (f a)) :
    Writes (x.next vs) (x >>= f) :=
  Writes.bind hx hf

namespace IsSilent

theorem pure (a : α) : IsSilent (Pure.pure a : Run α) := fun _ => String.append_empty.symm

theorem throw (e : Error) : IsSilent (MonadExcept.throw e : Run α) :=
  fun _ => String.append_empty.symm

theorem get : IsSilent (MonadState.get : Run Session) := fun _ => String.append_empty.symm

theorem readLine : IsSilent Run.readLine := fun _ => String.append_empty.symm

theorem assign (ident : String) (n : Int) : IsSilent (Run.assign ident n) :=
  fun _ => String.append_empty.symm

theorem ofExcept (result : Except Error α) : IsSilent (Run.ofExcept result) := by
  cases result with
  | ok a => exact .pure a
  | error e => exact .throw e

theorem ofResult (span : Span) (result : Except RuntimeCause α) :
    IsSilent (Run.ofResult span result) := by
  cases result with
  | ok a => exact .pure a
  | error cause => exact .throw _

end IsSilent

theorem Writes.write (u : Utterance) : Writes (fun _ => [u]) (Run.write u.text) := by
  intro s
  rw [texts, texts, String.append_empty]
  rfl

end Run

open Run (Writes IsSilent)

/-- What evaluating the expression utters: a prompt for each number that is asked of the user. -/
def Expr.utterances : Expr → Session → List Utterance
  | input _ prompt, _ => [.prompt prompt]
  | binary _ left _ right, s =>
    left.utterances s ++ left.evaluate.next (fun _ => right.utterances) s
  | _, _ => []

/-- What the statement utters. -/
def Stmt.utterances : Stmt → Session → List Utterance
  | assign _ _ value, s => value.utterances s
  | print _ value, s => value.utterances s ++ value.evaluate.next (fun n _ => [.value n]) s
  | _, _ => []

/-- What statements utter one after the other, up to the first that fails. -/
def Stmts.utterances : List Stmt → Session → List Utterance
  | [], _ => []
  | st :: ss, s => st.utterances s ++ st.run.next (fun _ => Stmts.utterances ss) s

theorem Expr.evaluate_writes (e : Expr) : Writes e.utterances e.evaluate := by
  induction e with
  | binary span l o r ihl ihr =>
    rw [Expr.evaluate_binary]
    exact ihl.bind fun left => ihr.bind_silent fun right => .ofResult span _
  | input span prompt =>
    rw [Expr.evaluate_eq]
    show Writes _ (readNumber span prompt)
    rw [readNumber_eq]
    exact (Writes.write (.prompt prompt)).bind_silent fun _ =>
      IsSilent.readLine.bind_silent fun line => .ofExcept _
  | name span ident =>
    rw [Expr.evaluate_eq]
    refine IsSilent.get.bind_silent fun s => ?_
    cases s.vars.get? ident with
    | none => exact .throw _
    | some value => exact .pure value
  | number span value =>
    rw [Expr.evaluate_eq]
    exact IsSilent.ofResult span _
  | misplaced kind span =>
    rw [Expr.evaluate_eq]
    exact IsSilent.throw _

theorem Stmt.run_writes (st : Stmt) : Writes st.utterances st.run := by
  cases st with
  | assign span ident value => exact (Expr.evaluate_writes value).bind_silent fun n => .assign ident n
  | print span value => exact (Expr.evaluate_writes value).bind fun n => .write (.value n)
  | pass span => exact IsSilent.pure ()
  | misplaced kind span => exact IsSilent.throw _

/-- **The output of statements is what they utter.** -/
theorem Stmts.run_writes (ss : List Stmt) : Writes (Stmts.utterances ss) (ss.forM Stmt.run) := by
  induction ss with
  | nil => exact IsSilent.pure ()
  | cons st ss ih => exact (Stmt.run_writes st).bind fun _ => ih

/-! ## Values that are written -/

/-- The values among the utterances are words. -/
def Utterance.AreWords (us : List Utterance) : Prop := ∀ n, .value n ∈ us → IsWord n

theorem Utterance.AreWords.append {us vs : List Utterance} (hus : AreWords us) (hvs : AreWords vs) :
    AreWords (us ++ vs) := by
  intro n hn
  rcases List.mem_append.1 hn with hn | hn
  · exact hus n hn
  · exact hvs n hn

/-- What is uttered after a step starts from variables that are words still. -/
theorem Run.KeepsWords.next {α : Type} {Q : α → Prop} {x : Run α} (hx : KeepsWords Q x)
    {vs : α → Session → List Utterance} {s : Session} (hs : s.vars.AreWords)
    (hvs : ∀ a s', Q a → s'.vars.AreWords → Utterance.AreWords (vs a s')) :
    Utterance.AreWords (x.next vs s) := by
  obtain ⟨hvars, hvalue⟩ := hx s hs
  rw [Run.next]
  cases hrun : x.run s with
  | ok a s' =>
    rw [hrun] at hvars
    exact hvs a s' (hvalue a s' hrun) hvars
  | error e s' => exact nofun

/-- No value is written where an expression is evaluated. -/
theorem Expr.utterances_areWords (e : Expr) (s : Session) : Utterance.AreWords (e.utterances s) := by
  induction e generalizing s with
  | binary span l o r ihl ihr =>
    refine (ihl s).append ?_
    rw [Run.next]
    cases l.evaluate.run s with
    | ok left s' => exact ihr s'
    | error e s' => exact nofun
  | input span prompt =>
    intro n hn
    cases List.mem_singleton.1 hn
  | name | number | misplaced => exact nofun

theorem Stmt.utterances_areWords (st : Stmt) {s : Session} (hs : s.vars.AreWords) :
    Utterance.AreWords (st.utterances s) := by
  cases st with
  | assign span ident value => exact value.utterances_areWords s
  | print span value =>
    refine (value.utterances_areWords s).append ?_
    refine (Expr.evaluate_keepsWords value).next hs fun n s' hn _ m hm => ?_
    cases List.mem_singleton.1 hm
    exact hn
  | pass | misplaced => exact nofun

/-- **Statements write words.** -/
theorem Stmts.utterances_areWords (ss : List Stmt) {s : Session} (hs : s.vars.AreWords) :
    Utterance.AreWords (Stmts.utterances ss s) := by
  induction ss generalizing s with
  | nil => exact nofun
  | cons st ss ih =>
    refine (st.utterances_areWords hs).append ?_
    exact (Stmt.run_keepsWords st).next hs fun _ s' _ hs' => ih hs'

/-! ## Sessions -/

/-- Something that is asked of a session, given by its text. -/
inductive Call
  /-- Run a program. -/
  | program (source : String)
  /-- Run a line. -/
  | line (source : String)
  /-- Evaluate an expression. -/
  | expression (source : String)
deriving DecidableEq, Repr

/-- What a line utters. -/
def Line.utterances : Line → Session → List Utterance
  | expression e => e.utterances
  | statements p => Stmts.utterances p.main.statements

namespace Call

/-- Does what is asked; a line that is an expression has a value, and so has an expression. -/
def run : Call → Run (Option Int)
  | program source => do runSource source; return none
  | line source => runLine source
  | expression source => some <$> evaluateSource source

/-- What is uttered in doing so. -/
def utterances : Call → Session → List Utterance
  | program source =>
    (Run.ofExcept (Program.ofSource source)).next fun p => Stmts.utterances p.main.statements
  | line source => (Run.ofExcept (Line.ofSource source)).next Line.utterances
  | expression source => (Run.ofExcept (Expr.ofSource source)).next Expr.utterances

end Call

/-- The session after one call and the next, each of which is given the text that it may read from,
and may succeed or fail. -/
def sessionAfterCalls : List (Call × List Char) → Session → Session
  | [], s => s
  | (call, input) :: calls, s =>
    sessionAfterCalls calls (Run.sessionAfter (call.run.run { s with input }))

theorem Line.run_keepsWords (line : Line) :
    KeepsWords (fun reply => ∀ n, reply = some n → IsWord n) line.run := by
  cases line with
  | expression e =>
    rw [Line.run, map_eq_pure_bind]
    refine (Expr.evaluate_keepsWords e).bind fun n hn => .pure fun m hm => ?_
    cases hm
    exact hn
  | statements p => exact (Stmts.run_keepsWords _).bind fun _ _ => .pure nofun

theorem Call.run_keepsWords (call : Call) :
    KeepsWords (fun reply => ∀ n, reply = some n → IsWord n) call.run := by
  cases call with
  | program source =>
    refine KeepsWords.bind (Q := fun _ => True) ?_ fun _ _ => .pure nofun
    exact (KeepsWords.ofText _).bind fun p _ =>
      Stmts.run_keepsWords _
  | line source =>
    exact (KeepsWords.ofText _).bind fun line _ =>
      line.run_keepsWords
  | expression source =>
    rw [Call.run, map_eq_pure_bind]
    refine KeepsWords.bind (Q := IsWord) ?_ fun n hn => .pure fun m hm => ?_
    · exact (KeepsWords.ofText _).bind fun e _ =>
        Expr.evaluate_keepsWords e
    · cases hm
      exact hn

theorem Line.run_writes (line : Line) : Writes line.utterances line.run := by
  cases line with
  | expression e =>
    rw [Line.run, map_eq_pure_bind]
    exact (Expr.evaluate_writes e).bind_silent fun n => .pure _
  | statements p => exact (Stmts.run_writes _).bind_silent fun _ => .pure none

/-- **The output of a call is what it utters.** -/
theorem Call.run_writes (call : Call) : Writes call.utterances call.run := by
  cases call with
  | program source =>
    refine Writes.bind_silent (x := runSource source) ?_ fun _ => .pure none
    exact (IsSilent.ofExcept _).bind fun p => Stmts.run_writes p.main.statements
  | line source => exact (IsSilent.ofExcept _).bind Line.run_writes
  | expression source =>
    rw [Call.run, map_eq_pure_bind]
    refine Writes.bind_silent (x := evaluateSource source) ?_ fun n => .pure _
    exact (IsSilent.ofExcept _).bind Expr.evaluate_writes

theorem Call.utterances_areWords (call : Call) {s : Session} (hs : s.vars.AreWords) :
    Utterance.AreWords (call.utterances s) := by
  cases call with
  | program source =>
    refine (KeepsWords.ofText _).next hs ?_
    intro p s' _ hs'
    exact Stmts.utterances_areWords p.main.statements hs'
  | line source =>
    refine (KeepsWords.ofText _).next hs ?_
    intro line s' _ hs'
    cases line with
    | expression e => exact e.utterances_areWords s'
    | statements p => exact Stmts.utterances_areWords p.main.statements hs'
  | expression source =>
    refine (KeepsWords.ofText _).next hs ?_
    intro e s' _ _
    exact e.utterances_areWords s'

/-- The call keeps to words in the session `s`. -/
structure Call.GivesWords (call : Call) (s : Session) : Prop where
  /-- The variables are words after it. -/
  vars : (Run.sessionAfter (call.run.run s)).vars.AreWords
  /-- The value that it gives, if it gives one, is a word. -/
  reply : ∀ n s', call.run.run s = .ok (some n) s' → IsWord n
  /-- What it writes is the text of its utterances. -/
  output : (Run.sessionAfter (call.run.run s)).output = s.output ++ texts (call.utterances s)
  /-- The values among them are words. -/
  values : Utterance.AreWords (call.utterances s)

/-- One call, whatever becomes of it. -/
theorem Call.givesWords (call : Call) {s : Session} (hs : s.vars.AreWords) : call.GivesWords s where
  vars := (call.run_keepsWords s hs).1
  reply n s' hrun := (call.run_keepsWords s hs).2 (some n) s' hrun n rfl
  output := call.run_writes s
  values := call.utterances_areWords hs

theorem sessionAfterCalls_areWords (calls : List (Call × List Char)) {s : Session}
    (hs : s.vars.AreWords) : (sessionAfterCalls calls s).vars.AreWords := by
  induction calls generalizing s with
  | nil => exact hs
  | cons next calls ih =>
    obtain ⟨call, input⟩ := next
    exact ih (call.givesWords (s := { s with input }) hs).vars

/-- **Values stay words.** In a session whose variables are words, they are words after any calls,
whether these succeed or fail and whatever they read. Whichever call comes next gives a word if it
gives a value, and the values that it prints on the way are words. -/
theorem sessions_stayWithinWords (s : Session) (hs : s.vars.AreWords)
    (calls : List (Call × List Char)) :
    (sessionAfterCalls calls s).vars.AreWords ∧
    ∀ (call : Call) (input : List Char),
      call.GivesWords { sessionAfterCalls calls s with input } := by
  have hvars := sessionAfterCalls_areWords calls hs
  refine ⟨hvars, fun call input => ?_⟩
  exact call.givesWords (s := { sessionAfterCalls calls s with input }) hvars

/-- A line that would leave the words changes nothing. A program then reads the greatest word and prints
one value before it fails, and the remainder of the two words, which nobody checks, is a word. -/
theorem sessions_stayWithinWords_leastWord :
    let start := Session.start (.ofList [("x", minWord)]) ""
    let line := Call.line "x = x - 1"
    let program := Call.program "y = input(\"?\")\nprint(y + x)\nprint(y - x)"
    let calls := [(line, []), (program, "2147483647".toList)]
    let remainder := Call.expression "x % y"
    let later : Session := ⟨.ofList [("x", minWord), ("y", maxWord)], "?-1\n", []⟩
    start.vars.AreWords ∧
      line.run.run start =
        .error (.diagnostic ⟨.runtime .resultOverflow, ⟨⟨1, 5⟩, ⟨1, 9⟩⟩⟩) start ∧
      program.run.run { start with input := "2147483647".toList } =
        .error (.diagnostic ⟨.runtime .resultOverflow, ⟨⟨3, 7⟩, ⟨3, 11⟩⟩⟩) later ∧
      sessionAfterCalls calls start = later ∧
      remainder.run.run later = .ok (some (-1)) later ∧ remainder.GivesWords later := by
  intro start line program calls remainder later
  have hs : start.vars.AreWords := by
    refine Variables.AreWords.set ?_ "x" (by decide)
    exact nofun
  have hlater : sessionAfterCalls calls start = later := by decide +kernel
  refine ⟨hs, by decide +kernel, by decide +kernel, hlater, by decide +kernel, ?_⟩
  have hwords := (sessions_stayWithinWords start hs calls).2 remainder []
  rwa [hlater] at hwords

end Reckon
