import Reckon.Command
import Reckon.Proofs.Choice
import Reckon.Proofs.Range

/-!
# Dialogues use up their input

The commands of a dialogue and the numbers that they ask for are lines of the same input. Each line
is taken once, in order, and a dialogue goes on until there are none.

* `Run.Asks` says of a step that each prompt takes up a line, if there is one left, and that no
  other line is taken up. `runLine_asks` says it of commands, so that the lines a command has read
  are known from what it utters.
* `Exchange` is a command with all that belongs to it. `Exchange.Leads.lines` and
  `Exchange.Leads.output` are about one exchange, `Course.lines` and `Course.output` about a whole
  dialogue.
* `Course.exists_course` finds a course for every session, by induction on the number of lines that
  are left, and `Console.run_converse` shows that it is taken.
-/

namespace Reckon

open Utterance (texts)

/-! ## Lines that are asked for -/

namespace Text

theorem lines_nil : lines [] = [] := by
  rw [lines, dif_pos rfl]

theorem lines_of_ne_nil {cs : List Char} (h : cs ≠ []) :
    lines cs = firstLine cs :: lines (afterFirstLine cs) := by
  rw [lines, dif_neg h]

theorem lines_afterFirstLine (cs : List Char) : lines (afterFirstLine cs) = (lines cs).drop 1 := by
  by_cases h : cs = []
  · rw [h, afterFirstLine, lines_nil, List.drop_nil]
  · rw [lines_of_ne_nil h, List.drop_one, List.tail_cons]

/-- Every line has a character at least. -/
theorem length_lines_le (cs : List Char) : (lines cs).length ≤ cs.length := by
  induction cs using lines.induct with
  | case1 =>
    rw [lines_nil]
    exact Nat.le_refl _
  | case2 cs h ih =>
    have hlt := length_afterFirstLine_lt h
    rw [lines_of_ne_nil h, List.length_cons]
    omega

end Text

namespace Utterance

/-- Whether a line is asked for. -/
def isPrompt : Utterance → Bool
  | prompt _ => true
  | value _ => false

/-- The number of lines that are asked for. -/
def prompts (us : List Utterance) : Nat := us.countP isPrompt

theorem prompts_append (us vs : List Utterance) : prompts (us ++ vs) = prompts us + prompts vs :=
  List.countP_append

end Utterance

open Utterance (prompts)

namespace Run

variable {α β : Type} {us : Session → List Utterance} {vs : α → Session → List Utterance}
  {x : Run α} {f : α → Run β}

/-- Each prompt among the utterances `us` takes up a line of the input, as long as there are lines,
and nothing else does, even if the step fails. -/
def Asks (us : Session → List Utterance) (x : Run α) : Prop :=
  ∀ s, Text.lines (sessionAfter (x.run s)).input = (Text.lines s.input).drop (prompts (us s))

/-- The step reads nothing. -/
def KeepsInput (x : Run α) : Prop := ∀ s, (sessionAfter (x.run s)).input = s.input

theorem KeepsInput.asks (hx : KeepsInput x) (hus : ∀ s, prompts (us s) = 0) : Asks us x := by
  intro s
  rw [hx s, hus s, List.drop_zero]

theorem Asks.bind (hx : Asks us x) (hf : ∀ a, Asks (vs a) (f a)) :
    Asks (fun s => us s ++ x.next vs s) (x >>= f) := by
  intro s
  have hlines := hx s
  show _ = (Text.lines s.input).drop (prompts (us s ++ x.next vs s))
  rw [EStateM.run_bind, next, Utterance.prompts_append, ← List.drop_drop, ← hlines]
  cases x.run s with
  | ok a s' => exact hf a s'
  | error e s' => rfl

theorem Asks.bind_keepsInput (hx : Asks us x) (hf : ∀ a, KeepsInput (f a)) :
    Asks us (x >>= f) := by
  intro s
  have hlines := hx s
  rw [EStateM.run_bind]
  cases hrun : x.run s with
  | ok a s' =>
    rw [hrun] at hlines
    rw [← hlines]
    exact congrArg Text.lines (hf a s')
  | error e s' =>
    rw [hrun] at hlines
    exact hlines

namespace KeepsInput

theorem pure (a : α) : KeepsInput (Pure.pure a : Run α) := fun _ => rfl

theorem throw (e : Error) : KeepsInput (MonadExcept.throw e : Run α) := fun _ => rfl

theorem get : KeepsInput (MonadState.get : Run Session) := fun _ => rfl

theorem write (text : String) : KeepsInput (Run.write text) := fun _ => rfl

theorem assign (ident : String) (n : Int) : KeepsInput (Run.assign ident n) := fun _ => rfl

theorem ofExcept (result : Except Error α) : KeepsInput (Run.ofExcept result) := by
  cases result with
  | ok a => exact .pure a
  | error e => exact .throw e

theorem ofResult (span : Span) (result : Except RuntimeCause α) :
    KeepsInput (Run.ofResult span result) := by
  cases result with
  | ok a => exact .pure a
  | error cause => exact .throw _

end KeepsInput

end Run

open Run (Asks KeepsInput)

/-- A prompt is followed by one line, be there a number on it or not. -/
theorem readNumber_asks (span : Span) (prompt : String) :
    Asks (fun _ => [.prompt prompt]) (readNumber span prompt) := by
  rw [readNumber_eq]
  have hread : Asks (fun _ => [.prompt prompt]) (do Run.write prompt; Run.readLine) :=
    fun s => Text.lines_afterFirstLine s.input
  rw [← bind_assoc]
  exact hread.bind_keepsInput fun line => .ofExcept _

theorem Expr.evaluate_asks (e : Expr) : Asks e.utterances e.evaluate := by
  induction e with
  | binary span l o r ihl ihr =>
    rw [Expr.evaluate_binary]
    exact ihl.bind fun left => ihr.bind_keepsInput fun right => .ofResult span _
  | input span prompt =>
    rw [Expr.evaluate_eq]
    exact readNumber_asks span prompt
  | name span ident =>
    rw [Expr.evaluate_eq]
    refine Asks.bind_keepsInput (KeepsInput.get.asks fun _ => rfl) fun s => ?_
    cases s.vars.get? ident with
    | none => exact .throw _
    | some value => exact .pure value
  | number span value =>
    rw [Expr.evaluate_eq]
    exact (KeepsInput.ofResult span _).asks fun _ => rfl
  | misplaced kind span =>
    rw [Expr.evaluate_eq]
    exact (KeepsInput.throw _).asks fun _ => rfl

theorem Stmt.run_asks (st : Stmt) : Asks st.utterances st.run := by
  cases st with
  | assign span ident value =>
    exact (Expr.evaluate_asks value).bind_keepsInput fun n => .assign ident n
  | print span value =>
    exact (Expr.evaluate_asks value).bind fun n => (KeepsInput.write _).asks fun _ => rfl
  | pass span => exact (KeepsInput.pure ()).asks fun _ => rfl
  | misplaced kind span => exact (KeepsInput.throw _).asks fun _ => rfl

theorem Stmts.run_asks (ss : List Stmt) : Asks (Stmts.utterances ss) (ss.forM Stmt.run) := by
  induction ss with
  | nil => exact (KeepsInput.pure ()).asks fun _ => rfl
  | cons st ss ih => exact (Stmt.run_asks st).bind fun _ => ih

theorem Line.run_asks (line : Line) : Asks line.utterances line.run := by
  cases line with
  | expression e =>
    rw [Line.run, map_eq_pure_bind]
    exact (Expr.evaluate_asks e).bind_keepsInput fun n => .pure _
  | statements p => exact (Stmts.run_asks _).bind_keepsInput fun _ => .pure none

/-- **A command reads one line for each of its prompts.** -/
theorem runLine_asks (source : String) : Asks (Call.line source).utterances (runLine source) := by
  have hread : Asks (fun _ => []) (Run.ofExcept (Line.ofSource source)) :=
    (KeepsInput.ofExcept _).asks fun _ => rfl
  exact hread.bind Line.run_asks

/-! ## Replies -/

/-- What becomes of a command. -/
inductive Reply
  /-- It failed, and the failure is reported. -/
  | report (d : Diagnostic)
  /-- It has a value, which is shown. -/
  | value (n : Int)
  /-- It ran, and there is nothing to say. -/
  | nothing
  /-- It read a number of so many digits that the dialogue is broken off. -/
  | broken (digits : Nat)
deriving DecidableEq, Repr

namespace Reply

/-- What running a command comes to that has this reply. -/
def outcome : Reply → Session → EStateM.Result Error Session (Option Int)
  | report d, s => .error (.diagnostic d) s
  | value n, s => .ok (some n) s
  | nothing, s => .ok none s
  | broken n, s => .error (.fault (.tooManyDigits n)) s

/-- What is left of a dialogue after the reply: only a broken one ends it. -/
def result : Reply → Console → EStateM.Result Fault Console Unit
  | report _, c | value _, c | nothing, c => .ok () c
  | broken n, c => .error (.tooManyDigits n) c

/-- What is shown of the reply among the output. -/
def echo : Reply → String
  | value n => s!"{n}\n"
  | report _ | nothing | broken _ => ""

/-- What is shown of the reply among the errors. -/
def complaint : Reply → String
  | report d => s!"{d.render none}\n"
  | value _ | nothing | broken _ => ""

end Reply

/-- What becomes of a command in the session `s`, and the session that it leaves. -/
inductive Answered (source : String) (s : Session) : Reply → Session → Prop
  | report {d : Diagnostic} {s' : Session}
      (hrun : (runLine source).run s = .error (.diagnostic d) s') : Answered source s (.report d) s'
  | value {e : Expr} {n : Int} {s' : Session} (hline : Line.ofSource source = .ok (.expression e))
      (hrun : e.evaluate.run s = .ok n s') : Answered source s (.value n) s'
  | nothing {p : Program} {s' : Session} (hline : Line.ofSource source = .ok (.statements p))
      (hrun : p.run.run s = .ok () s') : Answered source s .nothing s'
  | broken {n : Nat} {s' : Session} (hn : maxDigits < n)
      (hrun : (runLine source).run s = .error (.fault (.tooManyDigits n)) s') :
      Answered source s (.broken n) s'

section Commands

open Run (Ensures)

variable {source : String} {s s' : Session} {reply : Reply}

/-- Only numbers that are typed can be the fault of a command. -/
theorem Run.fault_of_ofExcept {α β : Type} {text : Except Error α} {f : α → Run β} {fault : Fault}
    (htext : ∀ e, text = .error e → ∃ d, e = .diagnostic d)
    (hf : ∀ a, text = .ok a → Ensures (fun _ => True) Error.IsOfRun (f a))
    (h : (ofExcept text >>= f).run s = .error (.fault fault) s') :
    ∃ n, fault = .tooManyDigits n ∧ maxDigits < n := by
  cases text with
  | error e =>
    obtain ⟨d, rfl⟩ := htext e rfl
    cases h
  | ok a =>
    have hfails := hf a rfl s
    rw [show (f a).run s = .error (.fault fault) s' from h] at hfails
    exact hfails

theorem runLine_fault {fault : Fault} (h : (runLine source).run s = .error (.fault fault) s') :
    ∃ n, fault = .tooManyDigits n ∧ maxDigits < n := by
  rcases runLine_eq source nestingLimit with hline | hline
  · rw [hline, map_eq_pure_bind] at h
    refine Run.fault_of_ofExcept (fun e he => ?_)
      (fun _ he => Expr.evaluate_isOfRun (Expr.ofSource_isProper he)) (Run.error_of_bind_pure h)
    obtain ⟨d, hd, -⟩ := Expr.ofSource_eq_error he
    exact ⟨d, hd⟩
  · rw [hline] at h
    refine Run.fault_of_ofExcept (fun e he => ?_)
      (fun _ hp => Stmts.run_isOfRun (Program.ofSource_isProper hp)) (Run.error_of_bind_pure h)
    obtain ⟨d, hd, -⟩ := Program.ofSource_eq_error he
    exact ⟨d, hd⟩

theorem runLine_of_line {line : Line} (h : Line.ofSource source = .ok line) :
    runLine source = line.run := by
  rw [runLine, h]
  rfl

/-- **Every command is answered**, in one of four ways. -/
theorem exists_answered (source : String) (s : Session) :
    ∃ reply s', Answered source s reply s' := by
  cases hrun : (runLine source).run s with
  | error e s' =>
    cases e with
    | diagnostic d => exact ⟨.report d, s', .report hrun⟩
    | fault f =>
      obtain ⟨n, rfl, hn⟩ := runLine_fault hrun
      exact ⟨.broken n, s', .broken hn hrun⟩
  | ok value s' =>
    cases hline : Line.ofSource source with
    | error e =>
      rw [runLine, hline] at hrun
      cases hrun
    | ok line =>
      rw [runLine_of_line hline] at hrun
      cases line with
      | expression e =>
        rw [Line.run, map_eq_pure_bind, EStateM.run_bind] at hrun
        cases he : e.evaluate.run s with
        | ok n s₁ => exact ⟨.value n, s₁, .value hline he⟩
        | error _ _ =>
          rw [he] at hrun
          cases hrun
      | statements p =>
        rw [Line.run, EStateM.run_bind] at hrun
        cases hp : p.run.run s with
        | ok _ s₁ => exact ⟨.nothing, s₁, .nothing hline hp⟩
        | error _ _ =>
          rw [hp] at hrun
          cases hrun

theorem Answered.run_runLine (h : Answered source s reply s') :
    (runLine source).run s = reply.outcome s' := by
  cases h with
  | report hrun | broken _ hrun => exact hrun
  | value hline hrun =>
    rw [runLine_of_line hline, Line.run, map_eq_pure_bind, EStateM.run_bind, hrun]
    rfl
  | nothing hline hrun =>
    rw [runLine_of_line hline, Line.run, EStateM.run_bind, hrun]
    rfl

theorem Answered.sessionAfter (h : Answered source s reply s') :
    Run.sessionAfter ((runLine source).run s) = s' := by
  rw [h.run_runLine]
  cases reply <;> rfl

end Commands

/-! ## Exchanges -/

/-- The session once the user was asked for a command and has typed it. -/
def Session.afterCommand (s : Session) : Session :=
  { s with output := s.output ++ commandPrompt, input := Text.afterFirstLine s.input }

/-- A command and all that belongs to it. -/
structure Exchange where
  /-- The line of the command. -/
  command : List Char
  /-- What the command utters. -/
  uttered : List Utterance
  /-- The lines that are read in the course of it. -/
  answers : List (List Char)
  /-- What becomes of it. -/
  reply : Reply
deriving DecidableEq, Repr

namespace Exchange

variable {x : Exchange} {s s' : Session}

/-- The text of the command. -/
def source (x : Exchange) : String := .ofList x.command

/-- The lines that the exchange takes up. -/
def lines (x : Exchange) : List (List Char) := x.command :: x.answers

/-- What is shown of the exchange among the output. -/
def text (x : Exchange) : String := commandPrompt ++ texts x.uttered ++ x.reply.echo

/-- The exchange leads from the session `s` to the session `s'`. -/
structure Leads (x : Exchange) (s s' : Session) : Prop where
  /-- There is a line to take. -/
  input : s.input ≠ []
  /-- The next line is the command. -/
  command : x.command = Text.firstLine s.input
  /-- The command is run once it has been read. -/
  uttered : x.uttered = (Call.line x.source).utterances s.afterCommand
  /-- Each prompt is answered by the line after it, as long as there are lines. -/
  answers : x.answers = (Text.lines s.afterCommand.input).take (prompts x.uttered)
  /-- What became of it comes last. -/
  answered : ∃ t, Answered x.source s.afterCommand x.reply t ∧
    s' = { t with output := t.output ++ x.reply.echo }

/-- As long as there are lines there is another exchange. -/
theorem exists_leads (hinput : s.input ≠ []) : ∃ x s', Leads x s s' := by
  let source : String := .ofList (Text.firstLine s.input)
  let uttered := (Call.line source).utterances s.afterCommand
  let answers := (Text.lines s.afterCommand.input).take (prompts uttered)
  obtain ⟨reply, t, ht⟩ := exists_answered source s.afterCommand
  exact ⟨⟨Text.firstLine s.input, uttered, answers, reply⟩, _, hinput, rfl, rfl, rfl, t, ht, rfl⟩

theorem Leads.lines (h : x.Leads s s') :
    Text.lines s.input = x.lines ++ Text.lines s'.input := by
  obtain ⟨t, ht, rfl⟩ := h.answered
  -- what the command leaves of the lines is what its prompts have not taken up
  have hasks := runLine_asks x.source s.afterCommand
  rw [ht.sessionAfter, ← h.uttered] at hasks
  calc Text.lines s.input
      = x.command :: Text.lines s.afterCommand.input := by
        rw [Text.lines_of_ne_nil h.input, h.command]
        rfl
    _ = x.command :: (x.answers ++ Text.lines t.input) := by
        rw [h.answers, hasks, List.take_append_drop]

/-- An exchange leaves fewer lines than there were. -/
theorem Leads.length_lines_lt (h : x.Leads s s') :
    (Text.lines s'.input).length < (Text.lines s.input).length := by
  rw [h.lines, List.length_append, Exchange.lines, List.length_cons]
  omega

theorem Leads.output (h : x.Leads s s') : s'.output = s.output ++ x.text := by
  obtain ⟨t, ht, rfl⟩ := h.answered
  have hwrites := (Call.line x.source).run_writes s.afterCommand
  rw [show (Call.line x.source).run = runLine x.source from rfl, ht.sessionAfter, ← h.uttered]
    at hwrites
  show t.output ++ x.reply.echo = _
  rw [hwrites, text, Session.afterCommand]
  simp only [String.append_assoc]

end Exchange

/-! ## The course of a dialogue -/

/-- How a dialogue ends. -/
inductive Ending
  /-- There are no more lines. -/
  | finished
  /-- The last command read a number of so many digits. -/
  | broken (digits : Nat)
deriving DecidableEq, Repr

namespace Ending

/-- What is shown at the end. -/
def text : Ending → String
  | finished => commandPrompt ++ "\n"
  | broken _ => ""

/-- What a dialogue comes to that ends so. -/
def result : Ending → Console → EStateM.Result Fault Console Unit
  | finished, c => .ok () c
  | broken n, c => .error (.tooManyDigits n) c

end Ending

/-- The exchanges of a dialogue from its first session to its last, and how it ends. -/
inductive Course : Session → List Exchange → Ending → Session → Prop
  | finished {s : Session} (hinput : s.input = []) :
      Course s [] .finished { s with output := s.output ++ Ending.finished.text }
  | broken {s s' : Session} {x : Exchange} {n : Nat} (hx : x.Leads s s')
      (hreply : x.reply = .broken n) : Course s [x] (.broken n) s'
  | turn {s s' t : Session} {x : Exchange} {xs : List Exchange} {ending : Ending}
      (hx : x.Leads s s') (hreply : ∀ n, x.reply ≠ .broken n) (hrest : Course s' xs ending t) :
      Course s (x :: xs) ending t

namespace Course

variable {s t : Session} {xs : List Exchange} {ending : Ending}

/-- **Every dialogue ends**, since the number of lines that are left goes down. -/
theorem exists_course (s : Session) : ∃ xs ending t, Course s xs ending t := by
  induction hlength : (Text.lines s.input).length using Nat.strongRecOn generalizing s with
  | ind length ih =>
    by_cases hinput : s.input = []
    · exact ⟨[], .finished, _, .finished hinput⟩
    obtain ⟨x, s', hx⟩ := Exchange.exists_leads hinput
    by_cases hreply : ∃ n, x.reply = .broken n
    · obtain ⟨n, hn⟩ := hreply
      exact ⟨[x], .broken n, s', .broken hx hn⟩
    · obtain ⟨xs, ending, t, hrest⟩ := ih _ (hlength ▸ hx.length_lines_lt) s' rfl
      exact ⟨x :: xs, ending, t, .turn hx (not_exists.1 hreply) hrest⟩

/-- **Each line is taken once**, as a command or as an answer, and in order. -/
theorem lines (h : Course s xs ending t) :
    Text.lines s.input = xs.flatMap Exchange.lines ++ Text.lines t.input := by
  induction h with
  | finished hinput => rfl
  | broken hx => rw [hx.lines, List.flatMap_cons, List.flatMap_nil, List.append_nil]
  | turn hx _ _ ih => rw [hx.lines, ih, List.flatMap_cons, List.append_assoc]

theorem output (h : Course s xs ending t) :
    t.output = s.output ++ String.join (xs.map Exchange.text) ++ ending.text := by
  induction h with
  | finished hinput => simp
  | broken hx => simp [hx.output, Ending.text]
  | turn hx _ _ ih => rw [ih, hx.output, List.map_cons, String.join_cons, ← String.append_assoc]

theorem input_eq_nil (h : Course s xs .finished t) : t.input = [] := by
  generalize hending : Ending.finished = ending at h
  induction h with
  | finished hinput => exact hinput
  | broken => cases hending
  | turn _ _ _ ih => exact ih hending

theorem maxDigits_lt {n : Nat} (h : Course s xs (.broken n) t) : maxDigits < n := by
  generalize hending : Ending.broken n = ending at h
  induction h with
  | finished => cases hending
  | broken hx hreply =>
    cases hending
    obtain ⟨t, ht, -⟩ := hx.answered
    rw [hreply] at ht
    cases ht
    assumption
  | turn _ _ _ ih => exact ih hending

end Course

/-! ## Dialogues -/

namespace Console

variable {note : Event → Option String} {c : Console}

/-- What is noted when a command is read. -/
def noted (note : Event → Option String) (source : String) : String :=
  String.join ((traceLine source).1.map fun event => (note event).elim "" fun text => s!"{text}\n")

/-- What is shown of the exchange among the errors. -/
def complaints (note : Event → Option String) (x : Exchange) : String :=
  noted note x.source ++ x.reply.complaint

theorem run_forM_report {f : Event → Talk Unit} (text : Event → String) (events : List Event)
    (c : Console)
    (hf : ∀ event c, (f event).run c = .ok () { c with errors := c.errors ++ text event }) :
    (events.forM f).run c =
      .ok () { c with errors := c.errors ++ String.join (events.map text) } := by
  induction events generalizing c with
  | nil =>
    rw [List.map_nil, String.join_nil, String.append_empty]
    rfl
  | cons event events ih =>
    show (f event >>= fun _ => events.forM f).run c = _
    rw [EStateM.run_bind, hf]
    dsimp only
    rw [ih, List.map_cons, String.join_cons, String.append_assoc]

section Steps

variable {α : Type} {action : Run α} {s s' : Session}

theorem run_step_of_ok {a : α} (h : action.run s = .ok a s') (errors : String) :
    (step action).run ⟨s, errors⟩ = .ok (.ok a) ⟨s', errors⟩ := by
  show step action ⟨s, errors⟩ = _
  simp only [step, h]

theorem run_step_of_diagnostic {d : Diagnostic} (h : action.run s = .error (.diagnostic d) s')
    (errors : String) : (step action).run ⟨s, errors⟩ = .ok (.error d) ⟨s', errors⟩ := by
  show step action ⟨s, errors⟩ = _
  simp only [step, h]

theorem run_step_of_fault {f : Fault} (h : action.run s = .error (.fault f) s')
    (errors : String) : (step action).run ⟨s, errors⟩ = .error f ⟨s', errors⟩ := by
  show step action ⟨s, errors⟩ = _
  simp only [step, h]

end Steps

/-- A command is noted, run and answered. -/
theorem run_answer (note : Event → Option String) {source : String} {reply : Reply} {s s' : Session}
    (h : Answered source s reply s') (errors : String) :
    (answer note source).run ⟨s, errors⟩ = reply.result
      ⟨{ s' with output := s'.output ++ reply.echo },
        errors ++ (noted note source ++ reply.complaint)⟩ := by
  have hrun := h.run_runLine
  rw [answer, EStateM.run_bind,
    run_forM_report fun event => (note event).elim "" fun text => s!"{text}\n"]
  · show EStateM.run (step (runLine source) >>= _) ⟨s, errors ++ noted note source⟩ = _
    rw [EStateM.run_bind, ← String.append_assoc]
    cases reply with
    | report d =>
      rw [run_step_of_diagnostic hrun, Reply.echo, String.append_empty]
      rfl
    | value n =>
      rw [run_step_of_ok hrun, Reply.complaint, String.append_empty]
      rfl
    | nothing =>
      rw [run_step_of_ok hrun, Reply.echo, Reply.complaint, String.append_empty,
        String.append_empty]
      rfl
    | broken n =>
      rw [run_step_of_fault hrun, Reply.echo, Reply.complaint, String.append_empty,
        String.append_empty]
      rfl
  · intro event c
    cases note event with
    | none =>
      rw [Option.elim_none, String.append_empty]
      rfl
    | some text => rfl

theorem run_converse_finished {s : Session} (hinput : s.input = []) (count : Nat)
    (errors : String) :
    (converse note count).run ⟨s, errors⟩ =
      .ok () ⟨{ s with output := s.output ++ Ending.finished.text }, errors⟩ := by
  obtain ⟨vars, output, input⟩ := s
  cases hinput
  -- without a command left, the dialogue ends as it does without a line left
  cases count with
  | zero => rfl
  | succ count =>
    rw [Ending.text, ← String.append_assoc]
    rfl

section Turns

variable {x : Exchange} {s s' : Session}

theorem run_converse_leads (note : Event → Option String) (hx : x.Leads s s') (count : Nat)
    (errors : String) :
    (converse note (count + 1)).run ⟨s, errors⟩ =
      (do
        answer note x.source
        converse note count).run ⟨s.afterCommand, errors⟩ := by
  have hread : (step Run.readLine).run ⟨{ s with output := s.output ++ commandPrompt }, errors⟩ =
      .ok (.ok (Text.firstLine s.input)) ⟨s.afterCommand, errors⟩ :=
    run_step_of_ok (Run.run_readLine _) errors
  rw [converse, EStateM.run_bind]
  show EStateM.run (step Run.readLine >>= _) _ = _
  rw [EStateM.run_bind, hread, Exchange.source, hx.command]
  cases hfirst : Text.firstLine s.input with
  | nil => exact absurd (Text.firstLine_eq_nil_iff.1 hfirst) hx.input
  | cons ch cs => rfl

theorem run_answer_leads (note : Event → Option String) (hx : x.Leads s s') (errors : String) :
    (answer note x.source).run ⟨s.afterCommand, errors⟩ =
      x.reply.result ⟨s', errors ++ complaints note x⟩ := by
  obtain ⟨t, ht, rfl⟩ := hx.answered
  exact run_answer note ht errors

theorem run_converse_broken (note : Event → Option String) (hx : x.Leads s s') {n : Nat}
    (hreply : x.reply = .broken n) (count : Nat) (errors : String) :
    (converse note (count + 1)).run ⟨s, errors⟩ =
      .error (.tooManyDigits n) ⟨s', errors ++ complaints note x⟩ := by
  rw [run_converse_leads note hx, EStateM.run_bind, run_answer_leads note hx, hreply]
  rfl

theorem run_converse_turn (note : Event → Option String) (hx : x.Leads s s')
    (hreply : ∀ n, x.reply ≠ .broken n) (count : Nat) (errors : String) :
    (converse note (count + 1)).run ⟨s, errors⟩ =
      (converse note count).run ⟨s', errors ++ complaints note x⟩ := by
  rw [run_converse_leads note hx, EStateM.run_bind, run_answer_leads note hx]
  cases h : x.reply with
  | report | value | nothing => rfl
  | broken n => exact absurd h (hreply n)

end Turns

/-- **A dialogue takes its course**, if it is given a command for each line. -/
theorem run_converse {s t : Session} {xs : List Exchange} {ending : Ending}
    (note : Event → Option String) (h : Course s xs ending t) {count : Nat}
    (hcount : (Text.lines s.input).length ≤ count) (errors : String) :
    (converse note count).run ⟨s, errors⟩ =
      ending.result ⟨t, errors ++ String.join (xs.map (complaints note))⟩ := by
  -- a command is used up with each exchange, and so is a line at least
  induction h generalizing count errors with
  | finished hinput =>
    rw [run_converse_finished hinput, List.map_nil, String.join_nil, String.append_empty]
    rfl
  | @broken s s' x n hx hreply =>
    have hlt := hx.length_lines_lt
    obtain ⟨count, rfl⟩ : ∃ m, count = m + 1 := ⟨count - 1, by omega⟩
    rw [run_converse_broken note hx hreply, List.map_singleton, String.join_cons, String.join_nil,
      String.append_empty]
    rfl
  | @turn s s' t x xs ending hx hreply _ ih =>
    have hlt := hx.length_lines_lt
    obtain ⟨count, rfl⟩ : ∃ m, count = m + 1 := ⟨count - 1, by omega⟩
    rw [run_converse_turn note hx hreply, ih (by omega), List.map_cons, String.join_cons,
      String.append_assoc]

/-- No input has more lines than characters, so a dialogue takes its course to the end. -/
theorem run_dialogue {xs : List Exchange} {ending : Ending} {t : Session}
    (note : Event → Option String) (h : Course c.session xs ending t) :
    (dialogue note).run c = ending.result ⟨t, c.errors ++ String.join (xs.map (complaints note))⟩ :=
  run_converse note h (Text.length_lines_le _) c.errors

/-- What can be seen of a dialogue that was had between two states of a console. -/
structure Shows (note : Event → Option String) (before : Console) (xs : List Exchange)
    (ending : Ending) (after : Console) : Prop where
  /-- The exchanges are those that the session calls for. -/
  course : Course before.session xs ending after.session
  /-- The lines that are gone are the commands, each with the lines that were read for it. -/
  lines : Text.lines before.session.input =
    xs.flatMap Exchange.lines ++ Text.lines after.session.input
  /-- The user was asked for each command, and at the end if there was none. -/
  output : after.session.output =
    before.session.output ++ String.join (xs.map Exchange.text) ++ ending.text
  /-- Failures are reported, and so is what was noted. -/
  errors : after.errors = before.errors ++ String.join (xs.map (complaints note))

theorem shows_of_course {xs : List Exchange} {ending : Ending} {t : Session}
    (note : Event → Option String) (h : Course c.session xs ending t) :
    c.Shows note xs ending ⟨t, c.errors ++ String.join (xs.map (complaints note))⟩ :=
  ⟨h, h.lines, h.output, rfl⟩

end Console

/-- The exit status tells how the dialogue ended. -/
theorem Command.status_talk (verbose : Bool) (file : Except ReadFailure (List UInt8))
    (input : String) :
    (Action.perform (.talk verbose) file input).status = .ok 0 ∨
      ∃ n, maxDigits < n ∧
        (Action.perform (.talk verbose) file input).status = .error (.tooManyDigits n) := by
  obtain ⟨xs, ending, t, h⟩ := Course.exists_course (Session.start ∅ input)
  have hrun := Console.run_dialogue (c := ⟨.start ∅ input, ""⟩) (note verbose) h
  rw [Action.perform, hrun]
  cases ending with
  | finished => exact .inl rfl
  | broken n => exact .inr ⟨n, h.maxDigits_lt, rfl⟩

/-- **A dialogue takes each line of its input once, and it ends.** Unless a command reads a number
of too many digits, the dialogue goes on until the whole input is used up. The lines of the input
are, in order, the commands and after each command the lines that it asked for. The user is asked
once for each command and once more at the end. Each command is reported, or its value is shown, or
it was run as statements. A greater bound on the number of commands makes no difference, and the
exit status is zero. -/
theorem Console.dialogue_usesUpInput :
    (∀ (note : Event → Option String) (c : Console),
      ((∃ xs c', (dialogue note).run c = .ok () c' ∧ c'.session.input = [] ∧
          c.Shows note xs .finished c') ∨
        ∃ xs n c', (dialogue note).run c = .error (.tooManyDigits n) c' ∧ maxDigits < n ∧
          c.Shows note xs (.broken n) c') ∧
      ∀ more, (converse note (c.session.input.length + more)).run c = (dialogue note).run c) ∧
    ∀ (verbose : Bool) (file : Except ReadFailure (List UInt8)) (input : String),
      (Command.Action.perform (.talk verbose) file input).status = .ok 0 ∨
        ∃ n, maxDigits < n ∧
          (Command.Action.perform (.talk verbose) file input).status =
            .error (.tooManyDigits n) := by
  refine ⟨fun note c => ?_, Command.status_talk⟩
  obtain ⟨xs, ending, t, h⟩ := Course.exists_course c.session
  have hrun := run_dialogue note h
  have hshows := shows_of_course note h
  refine ⟨?_, fun more => ?_⟩
  · cases ending with
    | finished => exact .inl ⟨xs, _, hrun, h.input_eq_nil, hshows⟩
    | broken n => exact .inr ⟨xs, n, _, hrun, h.maxDigits_lt, hshows⟩
  · rw [hrun]
    exact run_converse note h (Nat.le_add_right_of_le (Text.length_lines_le _)) c.errors

example : (Command.Action.perform (.talk false) (.ok [])
    "x = input(\"? \")\n5\nx * 2\nx // 0\ninput(\"! \")\n").output =
    ">>> ? >>> 10\n>>> >>> ! >>> \n" := by
  decide +kernel

end Reckon
