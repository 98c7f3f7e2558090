import Reckon.Token.Lexer

/-!
# Words and their texts

A `Word` is what a token says, apart from where it stands. Written out with blanks between them, words
are found again as the tokens of the text, provided that no two neighbours run together: a name would
go on with the digits and letters after it, a number with the digits, and two operators may spell a
third.

* `cut_text` finds one word at the start of a text, by the longest match.
* `Layout` says how words may be set out as a text. Which words may stand together without a blank is
  left open there; `Word.Merges` lists the pairs that may not.
* `scan_layout` finds all words of a text that is set out so.
-/

namespace Reckon

open Lexer

/-- What a token says. -/
inductive Word
  /-- A name. -/
  | ident (name : String)
  /-- A number, given by its digits. -/
  | number (digits : String)
  /-- A string, given by the text between its quotes. -/
  | string (text : String)
  | lparen
  | rparen
  | comma
  /-- An operator. -/
  | op (o : Operator)
  | newline
deriving DecidableEq, Repr

/-- A name begins with a letter or an underscore, and digits may follow. -/
def isName (name : String) : Bool :=
  match name.toList with
  | [] => false
  | c :: cs => isNameStart c && cs.all isNameChar

theorem not_mem_of_isName {c : Char} (hc : isNameChar c = false) {name : String}
    (h : isName name) : c ∉ name.toList := by
  have hall : ∀ d ∈ name.toList, isNameChar d := by
    unfold isName at h
    cases hname : name.toList with
    | nil => simp
    | cons d ds =>
      rw [hname] at h
      simp only [Bool.and_eq_true, List.all_eq_true] at h
      refine List.forall_mem_cons.2 ⟨?_, h.2⟩
      rw [isNameChar, h.1, Bool.true_or]
  intro hmem
  rw [hall c hmem] at hc
  cases hc

/-- A text that may stand between quotes. -/
def isQuotable (text : String) : Bool := text.toList.all fun c => c ≠ '"' && c ≠ '\n'

theorem isDigit_of_mem_toDigits (n : Nat) : ∀ c ∈ Nat.toDigits 10 n, isDigit c := fun _ hc =>
  Nat.isDigit_of_mem_toDigits (by decide) (by decide) hc

/-- The digits of a number that a program may spell out. -/
def isLiteral (digits : String) : Bool :=
  digits.toList ≠ [] && digits.toList.all isDigit &&
    decide (Nat.ofDigitChars 10 digits.toList 0 ≤ maxLiteral)

/-- What a token carries, apart from its place. -/
def Token.payload (t : Token) : TokenKind × String × Option TokenValue :=
  (t.kind, t.lexeme, t.value)

theorem Token.payload_eq {t : Token} {p : TokenKind × String × Option TokenValue}
    (h : t.payload = p) : t.kind = p.1 ∧ t.lexeme = p.2.1 ∧ t.value = p.2.2 := by
  rw [← h]
  exact ⟨rfl, rfl, rfl⟩

/-- Tokens can be told apart as the words that they say, or as other tokens that say the same. -/
theorem exists_split {α : Type} {f : α → TokenKind × String × Option TokenValue} {ts : List Token}
    {xs ys : List α} {x : α} (h : ts.map Token.payload = (xs ++ x :: ys).map f) :
    ∃ ts₁ t ts₂, ts = ts₁ ++ t :: ts₂ ∧ ts₁.map Token.payload = xs.map f ∧ t.payload = f x ∧
      ts₂.map Token.payload = ys.map f := by
  rw [List.map_append] at h
  obtain ⟨ts₁, ts', rfl, hts₁, hts'⟩ := List.map_eq_append_iff.1 h
  obtain ⟨t, ts₂, rfl, ht, hts₂⟩ := List.map_eq_cons_iff.1 hts'
  exact ⟨ts₁, t, ts₂, rfl, hts₁, ht, hts₂⟩

namespace Word

/-- What a token of the word carries. -/
def payload : Word → TokenKind × String × Option TokenValue
  | ident name => (.ident, name, none)
  | number digits => (.number, digits, some (.int (Nat.ofDigitChars 10 digits.toList 0)))
  | string text => (.string, text, none)
  | lparen => (.lparen, "(", none)
  | rparen => (.rparen, ")", none)
  | comma => (.comma, ",", none)
  | op o => (.op, o.symbol, some (.op o))
  | newline => (.newline, "\n", none)

/-- The text of the word. -/
def text : Word → List Char
  | ident name => name.toList
  | number digits => digits.toList
  | string text => '"' :: (text.toList ++ ['"'])
  | lparen => ['(']
  | rparen => [')']
  | comma => [',']
  | op o => o.symbol.toList
  | newline => ['\n']

/-- The word can be written: its name, digits or text are such as a program may contain. -/
def isSpelled : Word → Bool
  | ident name => isName name
  | number digits => isLiteral digits
  | string text => isQuotable text
  | lparen | rparen | comma | op _ | newline => true

/-- The words would be taken for one, or for others, if the first stood directly before the
second. -/
def Merges : Word → Word → Prop
  | ident _, ident _ | ident _, number _ | number _, number _ => True
  | op .times, op .times | op .times, op .pow | op .plus, op .assign => True
  | _, _ => False

/-- The character would be taken for a part of the word, if it stood directly behind it. -/
def absorbs (c : Char) : Word → Bool
  | ident _ => isNameChar c
  | number _ => isDigit c
  | op .times => c = '*'
  | op .plus => c = '='
  | _ => false

/-- Parentheses and newlines may follow any word directly. -/
theorem not_merges {v w : Word} (h : w = .lparen ∨ w = .rparen ∨ w = .newline) :
    ¬ v.Merges w := by
  cases v with
  | op o => rcases h with rfl | rfl | rfl <;> cases o <;> exact id
  | _ => rcases h with rfl | rfl | rfl <;> exact id

end Word

/-! ## Characters -/

namespace Lexer

variable {c : Char} {cs ds : List Char}

/-- Blanks, as they may be put between words. -/
def IsGap (cs : List Char) : Prop := ∀ c ∈ cs, c = ' ' ∨ c = '\t'

theorem isGap_space : IsGap [' '] := List.forall_mem_singleton.2 (.inl rfl)

theorem cut_blank (h : c = ' ' ∨ c = '\t') : cut c cs = .ok (.blank, 0) := by
  rcases h with rfl | rfl <;> rfl

/-- No letter is a digit. -/
theorem isDigit_of_isNameStart (h : isNameStart c) : isDigit c = false := by
  rw [← Bool.not_eq_true]
  intro hd
  simp only [isDigit, Bool.and_eq_true, decide_eq_true_eq] at hd
  simp only [isNameStart, Bool.or_eq_true, Bool.and_eq_true, decide_eq_true_eq] at h
  rcases h with (h | h) | rfl
  · exact absurd (Char.le_trans h.1 hd.2) (by decide)
  · exact absurd (Char.le_trans h.1 hd.2) (by decide)
  · exact absurd hd (by decide)

/-- The characters that blanks, comments, newlines, brackets, commas and operators begin with. -/
def marks : List Char := [' ', '\t', '\r', '\n', '#', '(', ')', ',', '-', '%', '=', '*', '+', '/']

/-- A character that begins no other piece of text begins a number, a name or a string. -/
theorem cut_of_not_mem_marks (h : c ∉ marks) :
    cut c cs =
      if isDigit c then cutNumber c cs
      else if isNameStart c then
        .ok (.token .ident (String.ofList (c :: cs.takeWhile isNameChar)) none,
          (cs.takeWhile isNameChar).length)
      else if c = '"' then cutString cs
      else .error (.unexpectedCharacter c, 0) := by
  simp only [marks, List.mem_cons, not_or] at h
  have hdouble : cs.head?.bind (double? c) = none := by
    cases cs with
    | nil => rfl
    | cons d cs => simp [double?, h]
  have hsingle : single? c = none := by simp [single?, h]
  rw [cut, if_neg (by simp [h]), if_neg (by simp [h]), if_neg (by simp [h]), hdouble]
  simp only [hsingle, List.length_cons, Nat.add_sub_cancel]

/-- A character of a class that has no marks in it is no mark. -/
theorem not_mem_marks {p : Char → Bool} (hp : marks.all (fun d => !p d) = true) (h : p c) :
    c ∉ marks := by
  intro hmem
  have hfalse := List.all_eq_true.1 hp c hmem
  rw [h] at hfalse
  cases hfalse

/-- A letter begins a name, which goes on as long as it can. -/
theorem cut_nameStart (h : isNameStart c) :
    cut c cs = .ok (.token .ident (String.ofList (c :: cs.takeWhile isNameChar)) none,
      (cs.takeWhile isNameChar).length) := by
  rw [cut_of_not_mem_marks (not_mem_marks (by decide) h), isDigit_of_isNameStart h,
    if_neg (by simp), if_pos h]

/-- A digit begins a number. -/
theorem cut_digit (h : isDigit c) : cut c cs = cutNumber c cs := by
  rw [cut_of_not_mem_marks (not_mem_marks (by decide) h), if_pos h]

/-- The longest match is the whole of what was matched, if what follows cannot go on. -/
theorem takeWhile_append_of_head {α : Type} {p : α → Bool} {xs ys : List α} (hxs : xs.all p)
    (hys : ∀ y ∈ ys.head?, p y = false) : (xs ++ ys).takeWhile p = xs := by
  rw [List.takeWhile_append_of_pos (by simpa using hxs)]
  cases ys with
  | nil => simp
  | cons y ys => simp [hys y rfl]

theorem cut_name {name : String} (hname : isName name)
    (hend : ∀ c ∈ cs.head?, isNameChar c = false) :
    ∃ c ds, name.toList = c :: ds ∧ cut c (ds ++ cs) = .ok (.token .ident name none, ds.length) := by
  unfold isName at hname
  cases htoList : name.toList with
  | nil => simp [htoList] at hname
  | cons c ds =>
    simp only [htoList, Bool.and_eq_true] at hname
    have htake := takeWhile_append_of_head hname.2 hend
    refine ⟨c, ds, rfl, ?_⟩
    rw [cut_nameStart hname.1, htake, ← htoList, String.ofList_toList]

theorem cut_literal {digits : String} (hdigits : isLiteral digits)
    (hend : ∀ c ∈ cs.head?, isDigit c = false) :
    ∃ c ds, digits.toList = c :: ds ∧
      cut c (ds ++ cs) =
        .ok (.token .number digits (some (.int (Nat.ofDigitChars 10 digits.toList 0))),
          ds.length) := by
  unfold isLiteral at hdigits
  cases htoList : digits.toList with
  | nil => simp [htoList] at hdigits
  | cons c ds =>
    simp only [htoList, List.all_cons, Bool.and_eq_true, decide_eq_true_eq] at hdigits
    have htake := takeWhile_append_of_head hdigits.1.2.2 hend
    refine ⟨c, ds, rfl, ?_⟩
    rw [cut_digit hdigits.1.2.1, cutNumber]
    simp only [htake, if_pos hdigits.2]
    simp only [← htoList, String.ofList_toList]
    simp [htoList]

theorem cut_quoted {text : String} (htext : isQuotable text) :
    cut '"' (text.toList ++ ['"'] ++ cs) =
      .ok (.token .string text none, (text.toList ++ ['"']).length) := by
  have htake : (text.toList ++ '"' :: cs).takeWhile (fun c => c ≠ '"' && c ≠ '\n') =
      text.toList := takeWhile_append_of_head htext (by simp)
  have hcut : cut '"' (text.toList ++ '"' :: cs) = cutString (text.toList ++ '"' :: cs) :=
    cut_of_not_mem_marks (by decide)
  rw [List.append_assoc, List.singleton_append, hcut, cutString]
  simp only [htake]
  simp

/-- Of the operators only `+` and `*` are the beginnings of others. -/
theorem cut_symbol {o : Operator} (hend : ∀ c ∈ cs.head?, (Word.op o).absorbs c = false) :
    ∃ c ds, o.symbol.toList = c :: ds ∧
      cut c (ds ++ cs) = .ok (.token .op o.symbol (some (.op o)), ds.length) := by
  cases o with
  | minus | mod | assign =>
    refine ⟨_, [], rfl, ?_⟩
    cases cs <;> rfl
  | div | pow | addAssign => exact ⟨_, [_], rfl, rfl⟩
  | plus =>
    refine ⟨'+', [], rfl, ?_⟩
    cases cs with
    | nil => rfl
    | cons d cs =>
      have hd : d ≠ '=' := by simpa [Word.absorbs] using hend d rfl
      have hdouble : (d :: cs).head?.bind (double? '+') = none := by simp [double?, hd]
      rw [List.nil_append, cut, hdouble]
      rfl
  | times =>
    refine ⟨'*', [], rfl, ?_⟩
    cases cs with
    | nil => rfl
    | cons d cs =>
      have hd : d ≠ '*' := by simpa [Word.absorbs] using hend d rfl
      have hdouble : (d :: cs).head?.bind (double? '*') = none := by simp [double?, hd]
      rw [List.nil_append, cut, hdouble]
      rfl

/-- **One word is found** at the start of a text that does not go on with it. -/
theorem cut_text {w : Word} (hw : w.isSpelled) (hend : ∀ c ∈ cs.head?, w.absorbs c = false) :
    ∃ c ds, w.text = c :: ds ∧
      cut c (ds ++ cs) =
        .ok (.token w.payload.1 w.payload.2.1 w.payload.2.2, ds.length) := by
  cases w with
  | ident name => exact cut_name hw hend
  | number digits => exact cut_literal hw hend
  | string text => exact ⟨'"', text.toList ++ ['"'], rfl, cut_quoted hw⟩
  | lparen | rparen | comma | newline =>
    refine ⟨_, [], rfl, ?_⟩
    cases cs <;> rfl
  | op o => exact cut_symbol hend

end Lexer

/-! ## Texts -/

/-- The words `ws` are set out as the text `cs`, after the word `before` if there is one. There may be
blanks around every word, and there must be, unless `tight` allows that a word follows another
directly. -/
inductive Layout (tight : Word → Word → Prop) :
    (before : Option Word) → (ws : List Word) → (cs : List Char) → Prop
  | nil {before : Option Word} {gap : List Char} (hgap : IsGap gap) : Layout tight before [] gap
  | cons {before : Option Word} {gap : List Char} {w : Word} {ws : List Word} {cs : List Char}
      (hgap : IsGap gap) (htight : gap = [] → ∀ v ∈ before, tight v w)
      (h : Layout tight (some w) ws cs) : Layout tight before (w :: ws) (gap ++ w.text ++ cs)

namespace Layout

variable {tight tight' : Word → Word → Prop} {before : Option Word} {w : Word} {ws : List Word}
  {cs : List Char}

theorem mono (h : Layout tight before ws cs) (htight : ∀ v w, tight v w → tight' v w) :
    Layout tight' before ws cs := by
  induction h with
  | nil hgap => exact .nil hgap
  | cons hgap ht _ ih => exact .cons hgap (fun hnil v hv => htight v _ (ht hnil v hv)) ih

/-- Nothing is set out as nothing. -/
theorem empty : Layout tight before [] [] := .nil (List.forall_mem_nil _)

/-- A word without a blank before it. -/
theorem glued (htight : ∀ v ∈ before, tight v w) (h : Layout tight (some w) ws cs) :
    Layout tight before (w :: ws) (w.text ++ cs) :=
  .cons (List.forall_mem_nil _) (fun _ => htight) h

/-- A word with a blank before it. -/
theorem spaced (h : Layout tight (some w) ws cs) :
    Layout tight before (w :: ws) (' ' :: (w.text ++ cs)) :=
  .cons isGap_space nofun h

/-- A word alone. -/
theorem single (w : Word) : Layout tight none [w] w.text := by
  have h : Layout tight none [w] (w.text ++ []) := glued nofun empty
  rwa [List.append_nil] at h

/-- Blanks may be put in front. With blanks before it, a text may follow any word. -/
theorem precede {after : Option Word} {gap : List Char} (h : Layout tight before ws cs)
    (hgap : IsGap gap) (hafter : gap = [] → after = before) : Layout tight after ws (gap ++ cs) := by
  cases h with
  | nil hgap' => exact .nil (List.forall_mem_append.2 ⟨hgap, hgap'⟩)
  | @cons _ gap' w ws cs hgap' htight h =>
    rw [← List.append_assoc, ← List.append_assoc]
    refine .cons (List.forall_mem_append.2 ⟨hgap, hgap'⟩) (fun hnil => ?_) h
    rw [List.append_eq_nil_iff] at hnil
    rw [hafter hnil.1]
    exact htight hnil.2

/-- Texts may be put one after the other, if the second may follow any word. -/
theorem append {us : List Word} {ds : List Char} (h : Layout tight before ws cs)
    (h' : ∀ after, Layout tight after us ds) : Layout tight before (ws ++ us) (cs ++ ds) := by
  induction h with
  | @nil before gap hgap => exact (h' before).precede hgap fun _ => rfl
  | cons hgap htight _ ih =>
    rw [List.append_assoc]
    exact .cons hgap htight ih

/-- The text of a name begins with a letter or an underscore. -/
theorem head?_text_ident {name : String} (h : isName name) :
    ∃ c, (Word.ident name).text.head? = some c ∧ isNameStart c := by
  simp only [isName] at h
  cases hname : name.toList with
  | nil => simp [hname] at h
  | cons c ds =>
    simp only [hname, Bool.and_eq_true] at h
    exact ⟨c, by simp [Word.text, hname], h.1⟩

/-- The text of a number begins with a digit. -/
theorem head?_text_number {digits : String} (h : isLiteral digits) :
    ∃ c, (Word.number digits).text.head? = some c ∧ isDigit c := by
  simp only [isLiteral] at h
  cases hdigits : digits.toList with
  | nil => simp [hdigits] at h
  | cons c ds =>
    simp only [hdigits, List.all_cons, Bool.and_eq_true] at h
    exact ⟨c, by simp [Word.text, hdigits], h.1.2.1⟩

/-- An operator absorbs no letter and no digit. -/
theorem absorbs_op {o : Operator} {c : Char} (h : (Word.op o).absorbs c) :
    isNameChar c = false := by
  cases o with
  | plus | times =>
    simp only [Word.absorbs, decide_eq_true_eq] at h
    subst h
    decide
  | _ => cases h

/-- Only words that merge with it begin with a character that a word absorbs. -/
theorem merges_of_absorbs {v : Word} {c : Char} (hw : w.isSpelled) (hc : w.text.head? = some c)
    (h : v.absorbs c) : v.Merges w := by
  cases w with
  | ident name =>
    obtain ⟨d, hd, hstart⟩ := head?_text_ident hw
    cases hc.symm.trans hd
    cases v with
    | ident => trivial
    | number =>
      have hdigit := isDigit_of_isNameStart hstart
      rw [show isDigit c = true from h] at hdigit
      cases hdigit
    | op o =>
      have hchar := absorbs_op h
      rw [isNameChar, hstart] at hchar
      cases hchar
    | string | lparen | rparen | comma | newline => cases h
  | number digits =>
    obtain ⟨d, hd, hdigit⟩ := head?_text_number hw
    cases hc.symm.trans hd
    cases v with
    | ident | number => trivial
    | op o =>
      have hchar := absorbs_op h
      rw [isNameChar, hdigit, Bool.or_true] at hchar
      cases hchar
    | string | lparen | rparen | comma | newline => cases h
  | string | lparen | rparen | comma | newline =>
    cases hc
    cases v with
    | op o => cases o <;> cases h
    | _ => cases h
  | op o =>
    cases v with
    | ident | number => cases o <;> cases hc <;> cases h
    | op o' =>
      cases o' with
      | times =>
        cases o with
        | times | pow => trivial
        | _ => cases hc; cases h
      | plus =>
        cases o with
        | assign => trivial
        | _ => cases hc; cases h
      | _ => cases h
    | string | lparen | rparen | comma | newline => cases h

theorem text_ne_nil (hw : w.isSpelled) : w.text ≠ [] := by
  cases w with
  | ident name =>
    obtain ⟨c, hc, -⟩ := head?_text_ident hw
    intro hnil
    rw [hnil] at hc
    cases hc
  | number digits =>
    obtain ⟨c, hc, -⟩ := head?_text_number hw
    intro hnil
    rw [hnil] at hc
    cases hc
  | string | lparen | rparen | comma | newline => exact List.cons_ne_nil _ _
  | op o => cases o <;> decide

/-- A word ends where its text does, if it merges with no word after it. -/
theorem absorbs_head? {c : Char} (h : Layout (fun v w => ¬ v.Merges w) (some w) ws cs)
    (hws : ∀ w ∈ ws, w.isSpelled) (hc : cs.head? = some c) : w.absorbs c = false := by
  have hblank : c = ' ' ∨ c = '\t' → w.absorbs c = false := by
    intro hc
    cases w with
    | op o => rcases hc with rfl | rfl <;> cases o <;> rfl
    | _ => rcases hc with rfl | rfl <;> rfl
  cases h with
  | nil hgap => exact hblank (hgap c (List.mem_of_mem_head? hc))
  | @cons _ gap v ws cs hgap htight h =>
    cases gap with
    | nil =>
      have hv : v.isSpelled := hws v (.head ws)
      have hhead : v.text.head? = some c := by
        obtain ⟨d, ds, hd⟩ := List.exists_cons_of_ne_nil (text_ne_nil hv)
        rw [hd] at hc ⊢
        exact hc
      rw [← Bool.not_eq_true]
      exact fun habs => htight rfl w rfl (merges_of_absorbs hv hhead habs)
    | cons d gap =>
      cases hc
      exact hblank (hgap c (.head gap))

/-- A text in parentheses may follow any word directly. -/
theorem parens (h : Layout (fun v w => ¬ v.Merges w) none ws cs) (before : Option Word) :
    Layout (fun v w => ¬ v.Merges w) before (.lparen :: (ws ++ [.rparen]))
      ('(' :: (cs ++ [')'])) := by
  have hinner : Layout (fun v w => ¬ v.Merges w) (some .lparen) ws cs := by
    cases h with
    | nil hgap => exact .nil hgap
    | cons hgap _ h =>
      refine .cons hgap (fun _ v hv => ?_) h
      cases hv
      exact id
  refine .glued (fun _ _ => Word.not_merges (.inl rfl)) (hinner.append fun _ => ?_)
  exact .glued (fun _ _ => Word.not_merges (.inr (.inl rfl))) .empty

end Layout

/-! ## Finding the words -/

namespace Lexer

variable (loc : Loc) (lineOpen : Bool) {c : Char} {cs gap : List Char} {piece : Piece} {width : Nat}

theorem scan_nil : scan loc lineOpen [] [] = .ok (if lineOpen then [lineEnd loc] else []) := by
  cases lineOpen <;> simp [scan]

/-- The tokens of a text are that of its first piece, if it has one, and those of the rest. -/
theorem scan_cons (h : cut c cs = .ok (piece, width)) :
    scan loc lineOpen [] (c :: cs) =
      (scan (loc.after (c :: cs.take width)) (piece.leavesOpen lineOpen) [] (cs.drop width)).map
        ((piece.token? width loc lineOpen).toList ++ ·) := by
  rw [scan]
  simp only [h]
  rw [scan_before]
  cases piece.token? width loc lineOpen <;> rfl

/-- Blanks are passed over. -/
theorem scan_gap (hgap : IsGap gap) :
    scan loc lineOpen [] (gap ++ cs) = scan (loc.after gap) lineOpen [] cs := by
  induction gap generalizing loc with
  | nil => rfl
  | cons c gap ih =>
    have hrest : IsGap gap := fun d hd => hgap d (.tail c hd)
    rw [List.cons_append, scan_cons loc lineOpen (cut_blank (hgap c (.head gap))), Loc.after_cons,
      Loc.after_cons, ← ih (loc.next c) hrest]
    show (scan (loc.next c) lineOpen [] (gap ++ cs)).map ([] ++ ·) = _
    cases scan (loc.next c) lineOpen [] (gap ++ cs) <;> rfl

/-- A word gives its token, and the text goes on behind it. -/
theorem scan_text {w : Word} (hw : w.isSpelled) (hend : ∀ c ∈ cs.head?, w.absorbs c = false) :
    ∃ t : Token, t.payload = w.payload ∧
      scan loc lineOpen [] (w.text ++ cs) =
        (scan (loc.after w.text) (decide (w ≠ .newline)) [] cs).map (t :: ·) := by
  obtain ⟨c, ds, htext, hcut⟩ := cut_text hw hend
  refine ⟨⟨w.payload.1, w.payload.2.1, ⟨loc, loc.right ds.length⟩, w.payload.2.2⟩, rfl, ?_⟩
  rw [htext, List.cons_append, scan_cons loc lineOpen hcut, List.take_left, List.drop_left]
  have hopen : (Piece.token w.payload.1 w.payload.2.1 w.payload.2.2).leavesOpen lineOpen =
      decide (w ≠ .newline) := by
    cases w <;> rfl
  rw [hopen]
  rfl

/-- The payload of the token that closes a line without a newline of its own. -/
def lineEndPayload : TokenKind × String × Option TokenValue := (.newline, "", none)

/-- **The words of a text are found again**, and a newline is added to close the last line if it is
open. -/
theorem scan_layout {before : Option Word} {ws : List Word}
    (h : Layout (fun v w => ¬ v.Merges w) before ws cs) (hws : ∀ w ∈ ws, w.isSpelled) :
    ∃ ts, scan loc lineOpen [] cs = .ok ts ∧
      ts.map Token.payload = ws.map Word.payload ++
        if ws.foldl (fun _ w => decide (w ≠ .newline)) lineOpen then [lineEndPayload] else [] := by
  induction h generalizing loc lineOpen with
  | @nil before gap hgap =>
    have hscan : scan loc lineOpen [] (gap ++ []) = scan (loc.after gap) lineOpen [] [] :=
      scan_gap loc lineOpen hgap
    rw [List.append_nil, scan_nil] at hscan
    refine ⟨_, hscan, ?_⟩
    cases lineOpen <;> rfl
  | @cons before gap w ws cs hgap htight h ih =>
    have hrest : ∀ w ∈ ws, w.isSpelled := fun v hv => hws v (.tail w hv)
    have hend : ∀ c ∈ cs.head?, w.absorbs c = false := fun c hc => h.absorbs_head? hrest hc
    obtain ⟨t, ht, hscan⟩ := scan_text (loc.after gap) lineOpen (hws w (.head ws)) hend
    obtain ⟨ts, hts, hpayload⟩ :=
      ih ((loc.after gap).after w.text) (decide (w ≠ .newline)) hrest
    refine ⟨t :: ts, ?_, ?_⟩
    · rw [List.append_assoc, scan_gap loc lineOpen hgap, hscan, hts]
      rfl
    · rw [List.map_cons, ht, hpayload]
      rfl

end Lexer

end Reckon
