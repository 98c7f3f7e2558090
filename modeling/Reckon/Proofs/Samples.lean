import Reckon.Corpus
import Reckon.Proofs.Tame
import Reckon.Proofs.Words

/-!
# What samples are made of

Whatever is drawn, the lines of a sample keep to a few rules: names are known before they are used,
factors and divisors are digits, and no expression has more than three operators.

* `Gen.Always` says that all values which may be made have a property. There is one lemma for each way
  to make values.
* `Term.IsTame`, `Entry.IsTame` and `Entries.AreTame` are the rules; the last of them follows the
  names from line to line.
* `always_sample` is the result.
-/

namespace Reckon

/-! ## Values that may be made -/

namespace Draw.Gen

variable {α β : Type} {g : Gen α} {P P' : α → Prop} {Q : β → Prop}

/-- Whatever is drawn, the value has the property. -/
def Always (g : Gen α) (P : α → Prop) : Prop := ∀ a, Possible g a → P a

namespace Always

theorem any (g : Gen α) : Always g fun _ => True := fun _ _ => trivial

theorem mono (h : Always g P) (hP : ∀ a, P a → P' a) : Always g P' := fun a ha => hP a (h a ha)

theorem pure {a : α} (h : P a) : Always (Pure.pure a) P := by
  intro b hb
  cases hb
  exact h

theorem upTo {bound : Nat} {next : Fin (bound + 1) → Gen α} (h : ∀ i, Always (next i) P) :
    Always (.upTo bound next) P := by
  intro a ha
  cases ha with
  | upTo i ha => exact h i a ha

theorem bits53 {next : Fin Twister.outcomes53 → Gen α} (h : ∀ i, Always (next i) P) :
    Always (.bits53 next) P := by
  intro a ha
  cases ha with
  | bits53 i ha => exact h i a ha

theorem bind {f : α → Gen β} (hg : Always g P) (hf : ∀ a, P a → Always (f a) Q) :
    Always (g >>= f) Q := by
  induction g with
  | done a => exact hf a (hg a (.done a))
  | upTo bound next ih => exact .upTo fun i => ih i fun a ha => hg a (.upTo i ha)
  | bits53 next ih => exact .bits53 fun i => ih i fun a ha => hg a (.bits53 i ha)

theorem choose {first : α} {others : List α} (h : ∀ a ∈ first :: others, P a) :
    Always (Gen.choose first others) P :=
  .upTo fun _ => .pure (h _ (List.get_mem _ _))

theorem between (low width : Nat) :
    Always (Gen.between low width) fun n => low ≤ n ∧ n ≤ low + width :=
  .upTo fun i => .pure ⟨Nat.le_add_right _ _, Nat.add_le_add_left (Nat.le_of_lt_succ i.isLt) low⟩

theorem replicate (h : Always g P) (n : Nat) : Always (g.replicate n) fun as => ∀ a ∈ as, P a := by
  induction n with
  | zero => exact .pure (List.forall_mem_nil P)
  | succ n ih =>
    refine h.bind fun a ha => ih.bind fun as has => .pure ?_
    exact List.forall_mem_cons.2 ⟨ha, has⟩

end Always

end Draw.Gen

/-- A name that may be assigned to. -/
def IsVariable (ident : String) : Prop := isName ident ∧ ident ≠ "pass" ∧ ident ≠ "print"

instance (ident : String) : Decidable (IsVariable ident) :=
  inferInstanceAs (Decidable (isName ident ∧ ident ≠ "pass" ∧ ident ≠ "print"))

namespace Corpus

open Draw Draw.Gen

/-! ## Tame samples -/

/-- The expression is tame over the names. -/
inductive Term.IsTame (names : List String) : (t : Term) → Prop
  | name {ident : String} (h : ident ∈ names) : IsTame names (.name ident)
  | number {n : Nat} (h : n ≤ 99) : IsTame names (.number n)
  | sum {parenthesized : Bool} {l r : Term} {o : Operator} (ho : o = .plus ∨ o = .minus)
      (hl : IsTame names l) (hr : IsTame names r) : IsTame names (.binary parenthesized l o r)
  | scaled {parenthesized : Bool} {l : Term} {o : Operator} {n : Nat} (ho : o.Scales n)
      (hl : IsTame names l) : IsTame names (.binary parenthesized l o (.number n))

/-- The number of operators in an expression. -/
def Term.operators : Term → Nat
  | binary _ left _ right => left.operators + right.operators + 1
  | _ => 0

/-- The line keeps to the rules, where the names are known. -/
inductive Entry.IsTame (names : List String) : (e : Entry) → Prop
  | pass : IsTame names .pass
  | comment {word : String} (h : isName word) : IsTame names (.comment word)
  | blank : IsTame names .blank
  | print {value : Term} (h : value.IsTame names) (hcount : value.operators ≤ 3) :
      IsTame names (.print value)
  | increase {ident : String} {amount : Nat} (h : ident ∈ names) (hamount : amount ≤ 9) :
      IsTame names (.increase ident amount)
  | assign {ident : String} {value : Term} (hident : IsVariable ident) (h : value.IsTame names)
      (hcount : value.operators ≤ 3) : IsTame names (.assign ident value)

/-- The lines keep to the rules, each with the names that are known when it is reached. -/
def Entries.AreTame : (names : List String) → List Entry → Prop
  | _, [] => True
  | names, e :: es => e.IsTame names ∧ AreTame (e.known names) es

/-! ## Samples are tame -/

/-- A reserved word gets one more character, and is no longer one. -/
theorem always_ident : Always ident IsVariable := by
  have hreserved : ∀ word ∈ reservedWords, IsVariable (word.push '_') := by decide
  have hletters : ∀ c ∈ 'a' :: (otherLetters ++ ['_']), Lexer.isNameStart c :=
    List.all_eq_true.1 (by decide)
  have hchars : ∀ c ∈ 'a' :: (otherLetters ++ "0123456789_".toList), Lexer.isNameChar c :=
    List.all_eq_true.1 (by decide)
  refine (Always.choose hletters).bind fun head hhead => ?_
  refine (Always.any _).bind fun length _ => ?_
  refine ((Always.choose hchars).replicate length).bind fun tail htail => .pure ?_
  have hname : isName (String.ofList (head :: tail)) := by
    rw [isName, String.toList_ofList]
    simp only [hhead, Bool.true_and, List.all_eq_true]
    exact htail
  split
  · next hmem => exact hreserved _ hmem
  · next hfree =>
    rw [reservedWords, List.mem_cons, List.mem_cons, not_or, not_or] at hfree
    exact ⟨hname, hfree.1, hfree.2.1⟩

theorem always_operand (names : List String) :
    Always (operand names) fun t => t.IsTame names ∧ t.operators = 0 := by
  have hnumber : Always operand.number fun t => t.IsTame names ∧ t.operators = 0 :=
    (Always.between 0 99).bind fun n hn => .pure ⟨.number (by omega), rfl⟩
  cases names with
  | nil => exact hnumber
  | cons first others =>
    refine (Always.any _).bind fun known _ => ?_
    cases known with
    | false => exact hnumber
    | true => exact (Always.choose fun _ => id).bind fun ident hident => .pure ⟨.name hident, rfl⟩

/-- With any tame expression to its left, the operator and the expression make a tame one. -/
def Term.Completes (names : List String) (op : Operator) (t : Term) : Prop :=
  ∀ parenthesized left, left.IsTame names → (Term.binary parenthesized left op t).IsTame names

theorem always_rightOperand {names : List String} {op : Operator} {other : Gen Term} {count : Nat}
    (hother : Always other fun t => t.IsTame names ∧ t.operators ≤ count)
    (hop : op ∈ [Operator.plus, .minus, .times, .div, .mod]) :
    Always (rightOperand op other) fun t => t.Completes names op ∧ t.operators ≤ count := by
  have hsum (ho : op = .plus ∨ op = .minus) :
      Always other fun t => t.Completes names op ∧ t.operators ≤ count :=
    hother.mono fun t ht => ⟨fun _ _ hleft => .sum ho hleft ht.1, ht.2⟩
  cases op with
  | plus => exact hsum (.inl rfl)
  | minus => exact hsum (.inr rfl)
  | times =>
    refine (Always.between 0 9).bind fun n hn => .pure ⟨fun _ _ hleft => ?_, Nat.zero_le _⟩
    exact .scaled ⟨.inl ⟨rfl, by omega⟩, by omega⟩ hleft
  | div =>
    refine (Always.between 1 8).bind fun n hn => .pure ⟨fun _ _ hleft => ?_, Nat.zero_le _⟩
    exact .scaled ⟨.inr ⟨.inl rfl, by omega⟩, by omega⟩ hleft
  | mod =>
    refine (Always.between 1 8).bind fun n hn => .pure ⟨fun _ _ hleft => ?_, Nat.zero_le _⟩
    exact .scaled ⟨.inr ⟨.inr rfl, by omega⟩, by omega⟩ hleft
  | assign | pow | addAssign => simp at hop

/-- The greatest number of operators that are nested up to `depth` times. -/
def maxOperators : (depth : Nat) → Nat
  | 0 => 0
  | depth + 1 => maxOperators depth + maxOperators depth + 1

theorem always_term (names : List String) (depth : Nat) :
    Always (term names depth) fun t => t.IsTame names ∧ t.operators ≤ maxOperators depth := by
  have hoperand (depth : Nat) :
      Always (operand names) fun t => t.IsTame names ∧ t.operators ≤ maxOperators depth :=
    (always_operand names).mono fun t ht => ⟨ht.1, ht.2 ▸ Nat.zero_le _⟩
  induction depth with
  | zero => exact hoperand 0
  | succ depth ih =>
    refine (Always.any _).bind fun stop _ => ?_
    cases stop with
    | true => exact hoperand (depth + 1)
    | false =>
      refine (Always.choose fun _ => id).bind fun op hop => ?_
      refine ih.bind fun left hleft => ?_
      refine (always_rightOperand ih hop).bind fun right hright => ?_
      refine (Always.any _).bind fun parenthesized _ => .pure ⟨hright.1 _ _ hleft.1, ?_⟩
      rw [Term.operators, maxOperators]
      omega

theorem always_assignment (names : List String) :
    Always (assignment names) fun e => e.IsTame names := by
  refine always_ident.bind fun ident hident => ?_
  exact (always_term names 2).bind fun value hvalue =>
    .pure (.assign hident hvalue.1 hvalue.2)

theorem always_entry (names : List String) : Always (entry names) fun e => e.IsTame names := by
  refine .bits53 fun roll => ?_
  split
  · exact .pure .pass
  split
  · exact always_ident.bind fun word hword => .pure (.comment hword.1)
  split
  · exact .pure .blank
  cases names with
  | nil => exact always_assignment []
  | cons first others =>
    dsimp only
    split
    · exact (always_term _ 2).bind fun value hvalue =>
        .pure (.print hvalue.1 hvalue.2)
    split
    · refine (Always.choose fun _ => id).bind fun ident hident => ?_
      exact (Always.between 0 9).bind fun amount hamount => .pure (.increase hident (by omega))
    · exact always_assignment (first :: others)

theorem always_entries (names : List String) (count : Nat) :
    Always (entries names count) fun es => Entries.AreTame names es ∧ es.length = count := by
  induction count generalizing names with
  | zero => exact .pure ⟨trivial, rfl⟩
  | succ count ih =>
    refine (always_entry names).bind fun e he => ?_
    exact (ih (e.known names)).bind fun es hes =>
      .pure ⟨⟨he, hes.1⟩, congrArg Nat.succ hes.2⟩

/-- **Samples are tame**, and have at most twelve lines. -/
theorem always_sample :
    Always sample fun x => Entries.AreTame [] x.entries ∧ x.entries.length ≤ 12 := by
  refine (Always.between 0 12).bind fun count hcount => ?_
  refine (always_entries [] count).bind fun es hes => ?_
  refine (Always.any _).bind fun closed _ => .pure ⟨hes.1, ?_⟩
  show es.length ≤ 12
  omega

end Corpus

end Reckon
