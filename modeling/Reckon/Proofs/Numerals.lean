import Reckon.Proofs.Listing
import Reckon.Proofs.Range

/-!
# Numbers that are typed

A request for input writes its prompt and uses up one line, whatever the line says. It accepts just
the lines on which a word is spelled in decimal notation, which are more than the ones that printing
writes: blanks may surround the number, and a plus sign and zeros may precede it.

* `IsNumeral` and `Spells` say what a number looks like on a line, without taking the line apart.
  `spells_iff` compares them with how the line is taken apart.
* `numberOnLine_cases` tells the three outcomes for a line, and `readsLine_readNumber` what they do to a
  session.
* `spellsWord_printed` is the way back. `run_prints` and `run_requests` follow a list of values from
  one session into another, by induction on the list.
-/

namespace Reckon

open Utterance (texts)

/-! ## Numerals -/

/-- The characters are decimal digits, and there is one at least. -/
def AreDigits (ds : List Char) : Prop := ds ≠ [] ∧ ∀ c ∈ ds, '0' ≤ c ∧ c ≤ '9'

/-- The text consists of digits, which a sign may precede. -/
inductive IsNumeral : (text : List Char) → (negative : Bool) → (digits : List Char) → Prop
  | unsigned {ds : List Char} (h : AreDigits ds) : IsNumeral ds false ds
  | plus {ds : List Char} (h : AreDigits ds) : IsNumeral ('+' :: ds) false ds
  | minus {ds : List Char} (h : AreDigits ds) : IsNumeral ('-' :: ds) true ds

section Numerals

variable {text ds digits : List Char} {negative : Bool} {c : Char}

theorem areDigits_iff : AreDigits ds ↔ ds ≠ [] ∧ ds.all Lexer.isDigit := by
  simp only [AreDigits, List.all_eq_true, Lexer.isDigit, Bool.and_eq_true, decide_eq_true_eq]

theorem not_areDigits_cons (hc : Lexer.isDigit c = false) : ¬ AreDigits (c :: ds) := by
  rw [areDigits_iff, List.all_cons, hc]
  exact fun h => Bool.false_ne_true h.2

theorem signedDigits?_unsigned (hminus : ∀ ds, text ≠ '-' :: ds) (hplus : ∀ ds, text ≠ '+' :: ds) :
    signedDigits? text =
      if text ≠ [] ∧ text.all Lexer.isDigit then some (false, text) else none := by
  unfold signedDigits?
  split
  next heq =>
    split at heq
    · exact absurd rfl (hminus _)
    · exact absurd rfl (hplus _)
    · cases heq
      rfl

/-- **A numeral is taken apart as it is put together.** -/
theorem signedDigits?_eq_some_iff :
    signedDigits? text = some (negative, digits) ↔ IsNumeral text negative digits := by
  have hsome (sign : Bool) (ds : List Char) :
      (if ds ≠ [] ∧ ds.all Lexer.isDigit then some (sign, ds) else none) = some (negative, digits) ↔
        AreDigits ds ∧ sign = negative ∧ ds = digits := by
    rw [areDigits_iff, Option.ite_none_right_eq_some, Option.some.injEq, Prod.mk.injEq]
  constructor
  · intro h
    by_cases hminus : ∃ ds, text = '-' :: ds
    · obtain ⟨ds, rfl⟩ := hminus
      obtain ⟨hds, rfl, rfl⟩ := (hsome true ds).1 h
      exact .minus hds
    by_cases hplus : ∃ ds, text = '+' :: ds
    · obtain ⟨ds, rfl⟩ := hplus
      obtain ⟨hds, rfl, rfl⟩ := (hsome false ds).1 h
      exact .plus hds
    rw [signedDigits?_unsigned (not_exists.1 hminus) (not_exists.1 hplus), hsome] at h
    obtain ⟨hds, rfl, rfl⟩ := h
    exact .unsigned hds
  · intro h
    cases h with
    | minus h => exact (hsome true digits).2 ⟨h, rfl, rfl⟩
    | plus h => exact (hsome false digits).2 ⟨h, rfl, rfl⟩
    | unsigned h =>
      -- a sign is no digit
      rw [signedDigits?_unsigned]
      · exact (hsome false text).2 ⟨h, rfl, rfl⟩
      · rintro ds rfl
        exact not_areDigits_cons (by decide) h
      · rintro ds rfl
        exact not_areDigits_cons (by decide) h

theorem isBlank_of_digit (h : '0' ≤ c ∧ c ≤ '9') : Text.isBlank c = false := by
  obtain ⟨hlow, hhigh⟩ := h
  rw [Char.le_def, UInt32.le_iff_toNat_le] at hlow hhigh
  have hlow : 48 ≤ c.toNat := hlow
  have hhigh : c.toNat ≤ 57 := hhigh
  unfold Text.isBlank
  simp only [Bool.or_eq_false_iff, Bool.and_eq_false_iff, decide_eq_false_iff_not]
  omega

/-- There are no blanks in a numeral. -/
theorem IsNumeral.isBlank (h : IsNumeral text negative digits) :
    ∀ c ∈ text, Text.isBlank c = false := by
  have hdigits {ds : List Char} (h : AreDigits ds) : ∀ c ∈ ds, Text.isBlank c = false :=
    fun c hc => isBlank_of_digit (h.2 c hc)
  cases h with
  | unsigned h => exact hdigits h
  | plus h => exact List.forall_mem_cons.2 ⟨by decide, hdigits h⟩
  | minus h => exact List.forall_mem_cons.2 ⟨by decide, hdigits h⟩

end Numerals

/-! ## Blanks around a text -/

section Blanks

variable {before text after : List Char}

theorem Text.dropWhile_isBlank (hbefore : ∀ c ∈ before, isBlank c)
    (htext : ∀ c ∈ text.head?, isBlank c = false) :
    (before ++ text).dropWhile isBlank = text := by
  rw [List.dropWhile_append_of_pos hbefore]
  cases text with
  | nil => rfl
  | cons c cs =>
    apply List.dropWhile_cons_of_neg
    rw [htext c rfl]
    exact Bool.false_ne_true

/-- Blanks around a text are taken away, and no more. -/
theorem Text.trim_append (hbefore : ∀ c ∈ before, isBlank c) (hafter : ∀ c ∈ after, isBlank c)
    (hne : text ≠ []) (htext : ∀ c ∈ text, isBlank c = false) :
    trim (before ++ (text ++ after)) = text := by
  have hfirst : ∀ c ∈ (text ++ after).head?, isBlank c = false := by
    obtain ⟨c, cs, rfl⟩ := List.exists_cons_of_ne_nil hne
    rintro _ ⟨⟩
    exact htext c List.mem_cons_self
  have hlast : ∀ c ∈ text.reverse.head?, isBlank c = false :=
    fun c hc => htext c (List.mem_reverse.1 (List.mem_of_head? hc))
  have hreverse : ∀ c ∈ after.reverse, isBlank c := fun c hc => hafter c (List.mem_reverse.1 hc)
  rw [trim, trimBy, dropWhile_isBlank hbefore hfirst, List.reverse_append,
    dropWhile_isBlank hreverse hlast, List.reverse_reverse]

/-- What is taken away are blanks. -/
theorem Text.exists_blanks (line : List Char) :
    ∃ before after, line = before ++ (trim line ++ after) ∧ (∀ c ∈ before, isBlank c) ∧
      ∀ c ∈ after, isBlank c := by
  have hblank {cs : List Char} : ∀ c ∈ cs.takeWhile isBlank, isBlank c :=
    List.all_eq_true.1 List.all_takeWhile
  let rest := line.dropWhile isBlank
  refine ⟨line.takeWhile isBlank, (rest.reverse.takeWhile isBlank).reverse, ?_, hblank,
    fun c hc => hblank c (List.mem_reverse.1 hc)⟩
  have hrest : trim line ++ (rest.reverse.takeWhile isBlank).reverse = rest := by
    show (rest.reverse.dropWhile isBlank).reverse ++ _ = rest
    rw [← List.reverse_append, List.takeWhile_append_dropWhile, List.reverse_reverse]
  rw [hrest, List.takeWhile_append_dropWhile]

end Blanks

/-! ## Numbers on lines -/

/-- There is nothing on the line but a sign, which may be missing, digits, and blanks around them. -/
def Spells (line : List Char) (negative : Bool) (digits : List Char) : Prop :=
  ∃ before text after, line = before ++ (text ++ after) ∧ (∀ c ∈ before, Text.isBlank c) ∧
    (∀ c ∈ after, Text.isBlank c) ∧ IsNumeral text negative digits

/-- The line spells a word, in digits that are not too many to be read. -/
def SpellsWord (line : List Char) (n : Int) : Prop :=
  ∃ negative digits, Spells line negative digits ∧ digits.length ≤ maxDigits ∧
    signedValue negative digits = n ∧ IsWord n

/-- The line spells a number in `count` digits, which are too many to be read. -/
def SpellsTooLong (line : List Char) (count : Nat) : Prop :=
  ∃ negative digits, Spells line negative digits ∧ digits.length = count ∧ maxDigits < count

section OnLines

variable {line digits digits' : List Char} {negative negative' : Bool} {n m : Int} {count count' : Nat}

theorem IsNumeral.ne_nil {text : List Char} (h : IsNumeral text negative digits) : text ≠ [] := by
  cases h with
  | unsigned h => exact h.1
  | plus | minus => exact List.cons_ne_nil _ _

theorem spells_iff :
    Spells line negative digits ↔ signedDigits? (Text.trim line) = some (negative, digits) := by
  rw [signedDigits?_eq_some_iff]
  constructor
  · rintro ⟨before, text, after, rfl, hbefore, hafter, h⟩
    rwa [Text.trim_append hbefore hafter h.ne_nil h.isBlank]
  · intro h
    obtain ⟨before, after, hline, hbefore, hafter⟩ := Text.exists_blanks line
    exact ⟨before, Text.trim line, after, hline, hbefore, hafter, h⟩

/-- A line spells one number in one way. -/
theorem Spells.unique (h : Spells line negative digits) (h' : Spells line negative' digits') :
    negative = negative' ∧ digits = digits' := by
  rw [spells_iff] at h h'
  rw [h'] at h
  cases h
  exact ⟨rfl, rfl⟩

theorem SpellsWord.unique (h : SpellsWord line n) (h' : SpellsWord line m) : n = m := by
  obtain ⟨negative, digits, hspells, -, rfl, -⟩ := h
  obtain ⟨negative', digits', hspells', -, rfl, -⟩ := h'
  obtain ⟨rfl, rfl⟩ := hspells.unique hspells'
  rfl

theorem SpellsTooLong.unique (h : SpellsTooLong line count) (h' : SpellsTooLong line count') :
    count = count' := by
  obtain ⟨negative, digits, hspells, rfl, -⟩ := h
  obtain ⟨negative', digits', hspells', rfl, -⟩ := h'
  obtain ⟨rfl, rfl⟩ := hspells.unique hspells'
  rfl

theorem SpellsWord.not_tooLong (h : SpellsWord line n) : ¬ SpellsTooLong line count := by
  rintro ⟨negative', digits', hspells', rfl, hlong⟩
  obtain ⟨negative, digits, hspells, hshort, -, -⟩ := h
  obtain ⟨rfl, rfl⟩ := hspells.unique hspells'
  omega

/-- **What a line is taken for**: a word, a number that is too long to be read, or a mistake of the
user. -/
theorem numberOnLine_cases (span : Span) (hne : line ≠ []) :
    (∃ n, SpellsWord line n ∧ numberOnLine span line = .ok n) ∨
    (∃ count, SpellsTooLong line count ∧
      numberOnLine span line = .error (.fault (.tooManyDigits count))) ∨
    ((∀ n, ¬ SpellsWord line n) ∧ (∀ count, ¬ SpellsTooLong line count) ∧
      ∃ cause, cause.kind = .interpretation ∧
        numberOnLine span line = .error (.diagnostic ⟨.runtime cause, span⟩)) := by
  unfold numberOnLine
  rw [if_neg hne]
  cases hdigits : signedDigits? (Text.trim line) with
  | none =>
    have hno (negative : Bool) (digits : List Char) : ¬ Spells line negative digits := by
      rw [spells_iff, hdigits]
      exact nofun
    refine .inr (.inr ⟨?_, ?_, _, rfl, rfl⟩)
    · rintro n ⟨negative, digits, hspells, -⟩
      exact hno negative digits hspells
    · rintro count ⟨negative, digits, hspells, -⟩
      exact hno negative digits hspells
  | some pair =>
    obtain ⟨negative, digits⟩ := pair
    have hspells : Spells line negative digits := spells_iff.2 hdigits
    dsimp only
    by_cases hlong : maxDigits < digits.length
    · rw [if_pos hlong]
      exact .inr (.inl ⟨_, ⟨negative, digits, hspells, rfl, hlong⟩, rfl⟩)
    rw [if_neg hlong]
    by_cases hword : IsWord (signedValue negative digits)
    · rw [if_pos hword]
      exact .inl ⟨_, ⟨negative, digits, hspells, Nat.not_lt.1 hlong, rfl, hword⟩, rfl⟩
    rw [if_neg hword]
    refine .inr (.inr ⟨?_, ?_, _, rfl, rfl⟩)
    · rintro n ⟨negative', digits', hspells', -, rfl, hword'⟩
      obtain ⟨rfl, rfl⟩ := hspells.unique hspells'
      exact hword hword'
    · rintro count ⟨negative', digits', hspells', rfl, hlong'⟩
      obtain ⟨rfl, rfl⟩ := hspells.unique hspells'
      exact hlong hlong'

end OnLines

/-! ## Requests -/

/-- The next line of an input, up to its line feed or, if it has none, to the end of the input; `rest`
is what follows. -/
inductive IsNextLine : (line rest : List Char) → Prop
  | closed {body : List Char} (rest : List Char) (h : '\n' ∉ body) : IsNextLine (body ++ ['\n']) rest
  | last {body : List Char} (hne : body ≠ []) (h : '\n' ∉ body) : IsNextLine body []

/-- What comes of a request for a number that is answered with a line. In each case the session is
`after`. -/
structure ReadsLine (span : Span) (line : List Char) (after : Session)
    (result : EStateM.Result Error Session Int) : Prop where
  /-- The number is read just if the line spells a word. -/
  accepted (n : Int) : result = .ok n after ↔ SpellsWord line n
  /-- It is a fault just if the line spells a number that is too long. -/
  tooLong (count : Nat) :
    result = .error (.fault (.tooManyDigits count)) after ↔ SpellsTooLong line count
  /-- Any other line is a mistake, and the request is to blame. -/
  refused (hword : ∀ n, ¬ SpellsWord line n) (hlong : ∀ count, ¬ SpellsTooLong line count) :
    ∃ cause, cause.kind = .interpretation ∧
      result = .error (.diagnostic ⟨.runtime cause, span⟩) after

section Requests

variable {line rest : List Char} {s : Session}

theorem IsNextLine.ne_nil (h : IsNextLine line rest) : line ≠ [] := by
  cases h with
  | closed rest h => simp
  | last hne h => exact hne

theorem IsNextLine.firstLine (h : IsNextLine line rest) : Text.firstLine (line ++ rest) = line := by
  cases h with
  | closed rest h => rw [List.append_assoc, Text.firstLine_append h]; rfl
  | last hne h => rw [Text.firstLine_append h, Text.firstLine, List.append_nil]

theorem IsNextLine.afterFirstLine (h : IsNextLine line rest) :
    Text.afterFirstLine (line ++ rest) = rest := by
  cases h with
  | closed rest h => rw [List.append_assoc, Text.afterFirstLine_append h]; rfl
  | last hne h => rw [Text.afterFirstLine_append h]; rfl

theorem run_readNumber (span : Span) (prompt : String) (h : IsNextLine line rest)
    (hs : s.input = line ++ rest) :
    (readNumber span prompt).run s =
      (Run.ofExcept (numberOnLine span line)).run
        { s with output := s.output ++ prompt, input := rest } := by
  have hline : Text.firstLine s.input = line := by rw [hs, h.firstLine]
  have hrest : Text.afterFirstLine s.input = rest := by rw [hs, h.afterFirstLine]
  rw [readNumber_eq, EStateM.run_bind, Run.run_write]
  show (Run.readLine >>= fun line => Run.ofExcept (numberOnLine span line)).run _ = _
  rw [EStateM.run_bind, Run.run_readLine]
  show (Run.ofExcept (numberOnLine span (Text.firstLine s.input))).run
    { s with output := s.output ++ prompt, input := Text.afterFirstLine s.input } = _
  rw [hline, hrest]

/-- **A request uses up its line and reads the word that the line spells.** -/
theorem readsLine_readNumber (span : Span) (prompt : String) (h : IsNextLine line rest)
    (hs : s.input = line ++ rest) :
    ReadsLine span line { s with output := s.output ++ prompt, input := rest }
      ((readNumber span prompt).run s) := by
  rw [run_readNumber span prompt h hs]
  rcases numberOnLine_cases span h.ne_nil with
    ⟨n, hword, heq⟩ | ⟨count, hlong, heq⟩ | ⟨hword, hlong, cause, hkind, heq⟩
  · rw [heq, Run.run_ofExcept_ok]
    refine ⟨fun m => ⟨fun hm => ?_, fun hm => ?_⟩, fun count => ⟨nofun, fun hlong => ?_⟩, fun hno => ?_⟩
    · cases hm
      exact hword
    · rw [hword.unique hm]
    · exact absurd hlong hword.not_tooLong
    · exact absurd hword (hno n)
  · rw [heq, Run.run_ofExcept_error]
    refine ⟨fun m => ⟨nofun, fun hm => ?_⟩, fun k => ⟨fun hk => ?_, fun hk => ?_⟩, fun _ hno => ?_⟩
    · exact absurd hlong hm.not_tooLong
    · cases hk
      exact hlong
    · rw [hlong.unique hk]
    · exact absurd hlong (hno count)
  · rw [heq, Run.run_ofExcept_error]
    refine ⟨fun m => ⟨nofun, fun hm => absurd hm (hword m)⟩, fun k => ⟨?_, fun hk => absurd hk (hlong k)⟩,
      fun _ _ => ⟨cause, hkind, rfl⟩⟩
    intro hk
    cases hk

theorem exists_nextLine {cs : List Char} (h : cs ≠ []) :
    ∃ line rest, IsNextLine line rest ∧ cs = line ++ rest := by
  by_cases hmem : '\n' ∈ cs
  · obtain ⟨body, rest, rfl, hbody⟩ := List.eq_append_cons_of_mem hmem
    exact ⟨body ++ ['\n'], rest, .closed rest hbody, (List.append_cons body '\n' rest)⟩
  · exact ⟨cs, [], .last h hmem, (List.append_nil cs).symm⟩

/-- Nothing can be read at the end of the input. -/
theorem run_readNumber_nil (span : Span) (prompt : String) (hs : s.input = []) :
    (readNumber span prompt).run s =
      .error (.diagnostic ⟨.runtime .endOfInput, span⟩) { s with output := s.output ++ prompt } := by
  obtain ⟨vars, output, input⟩ := s
  subst hs
  rfl

theorem Expr.evaluate_input (span : Span) (prompt : String) :
    (Expr.input span prompt).evaluate = readNumber span prompt :=
  Expr.evaluate_eq _

end Requests

/-! ## Printing and reading back -/

/-- The expression has the value `n` where the variables are `vars`, and evaluating it changes
nothing. -/
def Expr.HasValue (vars : Variables) (e : Expr) (n : Int) : Prop :=
  ∀ s : Session, s.vars = vars → e.evaluate.run s = .ok n s

/-- The statements print the numbers, one each. -/
inductive Prints (vars : Variables) : List Stmt → List Int → Prop
  | nil : Prints vars [] []
  | cons (span : Span) {e : Expr} {n : Int} {ss : List Stmt} {ns : List Int}
      (he : e.HasValue vars n) (h : Prints vars ss ns) :
      Prints vars (.print span e :: ss) (n :: ns)

section Printing

variable {vars : Variables} {n : Int} {ns : List Int} {ss : List Stmt}

theorem length_int_le (h : IsWord n) : (toString n).toList.length ≤ maxDigits := by
  have hdigits {m : Nat} (hm : m ≤ 2147483648) : m.repr.toList.length ≤ 10 := by
    rw [Nat.toList_repr]
    exact (Nat.length_toDigits_le_iff (by decide) (by decide)).2 (Nat.lt_of_le_of_lt hm (by decide))
  unfold IsWord minWord maxWord at h
  unfold maxDigits
  cases n with
  | ofNat m =>
    have hm := hdigits (m := m) (Nat.le_succ_of_le (Int.ofNat_le.1 h.2))
    exact Nat.le_trans hm (by decide)
  | negSucc m =>
    have hm := hdigits (m := m + 1) (by omega)
    show ("-" ++ (m + 1).repr).toList.length ≤ 4300
    rw [String.toList_append, List.length_append]
    exact Nat.le_trans (Nat.add_le_add_left hm _) (by decide)

theorem isNumeral_int (n : Int) :
    ∃ negative digits, IsNumeral (toString n).toList negative digits ∧
      signedValue negative digits = n ∧ digits.length ≤ (toString n).toList.length := by
  obtain ⟨negative, digits, hvalue, hne, hall, htext⟩ := Text.toList_int n
  have hdigits : AreDigits digits := areDigits_iff.2 ⟨hne, hall⟩
  refine ⟨negative, digits, ?_, hvalue, ?_⟩
  · rw [htext]
    cases negative with
    | false => exact .unsigned hdigits
    | true => exact .minus hdigits
  · rw [htext, List.length_append]
    exact Nat.le_add_left _ _

/-- **A printed line spells the number that was printed.** -/
theorem spellsWord_printed (h : IsWord n) : SpellsWord ((toString n).toList ++ ['\n']) n := by
  obtain ⟨negative, digits, hnumeral, hvalue, hlength⟩ := isNumeral_int n
  refine ⟨negative, digits, ⟨[], _, ['\n'], rfl, ?_, ?_, hnumeral⟩,
    Nat.le_trans hlength (length_int_le h), hvalue, h⟩
  · exact List.forall_mem_nil _
  · exact List.forall_mem_singleton.2 (by decide)

theorem Expr.hasValue_number (span : Span) (h : IsWord n) : (Expr.number span n).HasValue vars n := by
  intro s _
  rw [Expr.evaluate_eq]
  show (Run.ofResult span (checked (.literalOverflow n) n)).run s = _
  rw [checked, if_pos h, Run.run_ofResult_ok]

theorem Prints.literals (span : Span) (h : ∀ n ∈ ns, IsWord n) :
    Prints vars (ns.map fun n => .print span (.number span n)) ns := by
  induction ns with
  | nil => exact .nil
  | cons n ns ih =>
    obtain ⟨hn, hns⟩ := List.forall_mem_cons.1 h
    exact .cons span (Expr.hasValue_number span hn) (ih hns)

/-- Printing adds one line for each number. -/
theorem run_prints (h : Prints vars ss ns) {s : Session} (hs : s.vars = vars) :
    (ss.forM Stmt.run).run s =
      .ok () { s with output := s.output ++ texts (ns.map .value) } := by
  induction h generalizing s with
  | nil =>
    show EStateM.Result.ok () s = .ok () { s with output := s.output ++ "" }
    rw [String.append_empty]
  | @cons span e n ss ns he h ih =>
    let printed : Session := { s with output := s.output ++ s!"{n}\n" }
    have hprint : (Stmt.print span e).run.run s = .ok () printed := by
      show (e.evaluate >>= fun n => Run.write s!"{n}\n").run s = _
      rw [EStateM.run_bind, he s hs]
      rfl
    show ((Stmt.print span e).run >>= fun _ => ss.forM Stmt.run).run s = _
    rw [EStateM.run_bind, hprint]
    show (ss.forM Stmt.run).run printed = _
    rw [ih (s := printed) hs, List.map_cons, texts, ← String.append_assoc]
    rfl

/-- **Requests read the numbers that printing wrote**, one after the other and nothing beyond. -/
theorem run_requests (hns : ∀ n ∈ ns, IsWord n) {requests : List (Span × String)}
    (hlength : requests.length = ns.length) {t : Session} {rest : List Char}
    (ht : t.input = (texts (ns.map .value)).toList ++ rest) :
    (requests.mapM fun r => (Expr.input r.1 r.2).evaluate).run t =
      .ok ns { t with
        output := t.output ++ texts (requests.map fun r => .prompt r.2), input := rest } := by
  induction ns generalizing requests t with
  | nil =>
    obtain rfl := List.length_eq_zero_iff.1 hlength
    obtain ⟨vars, output, input⟩ := t
    obtain rfl : input = rest := ht
    show EStateM.Result.ok [] (Session.mk vars output input) = .ok [] ⟨vars, output ++ "", input⟩
    rw [String.append_empty]
  | cons n ns ih =>
    obtain ⟨⟨span, prompt⟩, requests, rfl⟩ :=
      List.exists_cons_of_length_eq_add_one (hlength.trans List.length_cons)
    obtain ⟨hn, hns⟩ := List.forall_mem_cons.1 hns
    -- the first line is the one that holds the first number
    let line := (toString n).toList ++ ['\n']
    let others := (texts (ns.map .value)).toList ++ rest
    have hline : IsNextLine line others :=
      .closed others (Text.not_mem_int (by decide) (by decide) n)
    have hinput : t.input = line ++ others := by
      rw [ht, List.map_cons, texts, String.toList_append, List.append_assoc]
      show (toString n ++ "\n").toList ++ _ = _
      rw [String.toList_append]
      rfl
    let after : Session := { t with output := t.output ++ prompt, input := others }
    have hfirst : (Expr.input span prompt).evaluate.run t = .ok n after := by
      rw [Expr.evaluate_input]
      exact ((readsLine_readNumber span prompt hline hinput).accepted n).2 (spellsWord_printed hn)
    have hothers := ih (t := after) hns (Nat.succ.inj hlength) rfl
    rw [List.mapM_cons, EStateM.run_bind, hfirst]
    show ((requests.mapM fun r => (Expr.input r.1 r.2).evaluate) >>= fun ns =>
      pure (n :: ns)).run after = _
    rw [EStateM.run_bind, hothers, List.map_cons, texts, ← String.append_assoc]
    rfl

/-- **What is printed is read back**, and what is typed is read if it spells a word.

A request for input writes its prompt and, unless the input is at its end, uses up the next line,
which it accepts if a word is spelled there. What a block prints can be given to as many requests as
there are numbers, in any other session and with anything after it. -/
theorem input_readsBack :
    (∀ (span : Span) (prompt : String) (s : Session),
      (s.input = [] → (Expr.input span prompt).evaluate.run s =
        .error (.diagnostic ⟨.runtime .endOfInput, span⟩) { s with output := s.output ++ prompt }) ∧
      (s.input ≠ [] → ∃ line rest, IsNextLine line rest ∧ s.input = line ++ rest) ∧
      ∀ line rest, IsNextLine line rest → s.input = line ++ rest →
        ReadsLine span line { s with output := s.output ++ prompt, input := rest }
          ((Expr.input span prompt).evaluate.run s)) ∧
    ∀ (b : Block) (ns : List Int) (s : Session), (∀ n ∈ ns, IsWord n) → Prints s.vars b.statements ns →
      ∃ text, b.run.run s = .ok () { s with output := s.output ++ text } ∧
        ∀ (requests : List (Span × String)) (t : Session) (rest : List Char),
          requests.length = ns.length → t.input = text.toList ++ rest →
          ∃ output, (requests.mapM fun r => (Expr.input r.1 r.2).evaluate).run t =
            .ok ns { t with output, input := rest } := by
  constructor
  · intro span prompt s
    rw [Expr.evaluate_input]
    exact ⟨run_readNumber_nil span prompt, exists_nextLine,
      fun line rest hline hs => readsLine_readNumber span prompt hline hs⟩
  · intro b ns s hns hprints
    refine ⟨texts (ns.map .value), run_prints hprints rfl, fun requests t rest hlength ht => ?_⟩
    exact ⟨_, run_requests hns hlength ht⟩

/-- A seven with more around it than is needed, on a line that nothing closes; and the words that are
farthest from each other, printed and read by three requests. -/
theorem input_readsBack_extremes :
    (Expr.input (.point ⟨1, 5⟩) "n? ").evaluate.run ⟨∅, "", ['\t', '+', '0', '0', '7', ' ']⟩ =
      .ok 7 ⟨∅, "" ++ "n? ", []⟩ ∧
    ∃ text output,
      (Block.mk ([minWord, 0, maxWord].map fun n =>
        .print (.point ⟨1, 1⟩) (.number (.point ⟨1, 1⟩) n))).run.run (.start ∅ "") =
          .ok () ⟨∅, "" ++ text, []⟩ ∧
      ((List.replicate 3 (Span.point ⟨2, 1⟩, "?")).mapM fun r => (Expr.input r.1 r.2).evaluate).run
        ⟨∅, "", text.toList ++ ['x']⟩ = .ok [minWord, 0, maxWord] ⟨∅, output, ['x']⟩ := by
  have hnumeral : IsNumeral ['+', '0', '0', '7'] false ['0', '0', '7'] :=
    .plus (areDigits_iff.2 ⟨nofun, by decide⟩)
  have hspells : SpellsWord ['\t', '+', '0', '0', '7', ' '] 7 :=
    ⟨false, ['0', '0', '7'],
      ⟨['\t'], _, [' '], rfl, List.forall_mem_singleton.2 (by decide),
        List.forall_mem_singleton.2 (by decide), hnumeral⟩,
      by decide, by decide, by decide⟩
  have hline : IsNextLine ['\t', '+', '0', '0', '7', ' '] [] := .last nofun (by decide)
  have hwords : ∀ n ∈ [minWord, 0, maxWord], IsWord n := by decide
  obtain ⟨htyped, hprinted⟩ := input_readsBack
  constructor
  · have hreads := (htyped (.point ⟨1, 5⟩) "n? " ⟨∅, "", _⟩).2.2 _ _ hline rfl
    exact (hreads.accepted 7).2 hspells
  · obtain ⟨text, hrun, hread⟩ :=
      hprinted ⟨_⟩ _ (.start ∅ "") hwords (Prints.literals (.point ⟨1, 1⟩) hwords)
    obtain ⟨output, hread⟩ :=
      hread (List.replicate 3 (.point ⟨2, 1⟩, "?")) ⟨∅, "", text.toList ++ ['x']⟩ ['x'] rfl rfl
    exact ⟨text, output, hrun, hread⟩

end Printing

end Reckon
