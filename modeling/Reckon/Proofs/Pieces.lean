import Reckon.Proofs.Words

/-!
# What a text is cut into

`Reckon.Proofs.Words` finds a word at the start of a text that does not go on with it. Here is the
converse: a piece that is cut off a text is a blank, a comment, or a word that goes as far as it can.
So words and what may stand next to them say all there is to say about tokens.

* `IsPiece` lists the pieces, and `cut_isPiece` is the case analysis behind all that follows.
* `Layout.of_scan` is the converse of `scan_layout`: if words are found again in a text that they were
  set out as, then no two of them were run together that merge.
-/

namespace Reckon

open Lexer

/-! ## Characters of words -/

namespace Word

variable {v w : Word} {c : Char}

/-- Only a newline has a line feed in its text. -/
theorem newline_not_mem_text (hw : w.isSpelled) (hne : w ≠ .newline) : '\n' ∉ w.text := by
  have hall {p : Char → Bool} {cs : List Char} (hp : p '\n' = false) (hcs : cs.all p) :
      '\n' ∉ cs := by
    intro hmem
    have htrue := List.all_eq_true.1 hcs _ hmem
    rw [hp] at htrue
    cases htrue
  cases w with
  | ident name =>
    refine hall (p := isNameChar) (by decide) ?_
    simp only [isSpelled, isName] at hw
    show name.toList.all isNameChar = true
    cases hname : name.toList with
    | nil => rfl
    | cons c cs =>
      simp only [hname, Bool.and_eq_true] at hw
      rw [List.all_cons, hw.2, isNameChar, hw.1]
      rfl
  | number digits =>
    simp only [isSpelled, isLiteral, Bool.and_eq_true] at hw
    exact hall (p := isDigit) (by decide) hw.1.2
  | string text =>
    have htext : '\n' ∉ text.toList := hall (p := fun c => c ≠ '"' && c ≠ '\n') (by decide) hw
    simp [Word.text, htext]
  | lparen | rparen | comma => decide
  | op o => cases o <;> decide
  | newline => exact absurd rfl hne

theorem newline_not_mem_dropLast (hw : w.isSpelled) : '\n' ∉ w.text.dropLast := by
  by_cases hne : w = .newline
  · subst hne
    decide
  · exact fun hmem => newline_not_mem_text hw hne (List.dropLast_subset _ hmem)

/-- No word begins like a blank or a comment. -/
theorem head?_text_ne (hw : w.isSpelled) (hc : w.text.head? = some c) :
    c ≠ ' ' ∧ c ≠ '\t' ∧ c ≠ '\r' ∧ c ≠ '#' := by
  have hmarks (h : c ∉ marks) : c ≠ ' ' ∧ c ≠ '\t' ∧ c ≠ '\r' ∧ c ≠ '#' := by
    simp only [marks, List.mem_cons, not_or] at h
    exact ⟨h.1, h.2.1, h.2.2.1, h.2.2.2.2.1⟩
  cases w with
  | ident name =>
    obtain ⟨d, hd, hstart⟩ := Layout.head?_text_ident hw
    cases hc.symm.trans hd
    exact hmarks (not_mem_marks (by decide) hstart)
  | number digits =>
    obtain ⟨d, hd, hdigit⟩ := Layout.head?_text_number hw
    cases hc.symm.trans hd
    exact hmarks (not_mem_marks (by decide) hdigit)
  | string | lparen | rparen | comma | newline =>
    cases hc
    decide
  | op o => cases o <;> cases hc <;> decide

/-- A word is known by what its token carries. -/
theorem payload_injective (h : v.payload = w.payload) : v = w := by
  cases v <;> cases w <;> simp_all [payload]

theorem payload_kind_eq_newline_iff : w.payload.1 = .newline ↔ w = .newline := by
  cases w <;> simp [payload]

/-- A word absorbs the first character of those that it merges with. -/
theorem absorbs_of_merges (h : v.Merges w) (hw : w.isSpelled) (hc : w.text.head? = some c) :
    v.absorbs c := by
  cases w with
  | ident name =>
    obtain ⟨d, hd, hstart⟩ := Layout.head?_text_ident hw
    cases hc.symm.trans hd
    cases v with
    | ident => simp [absorbs, isNameChar, hstart]
    | op o => cases o <;> cases h
    | _ => cases h
  | number digits =>
    obtain ⟨d, hd, hdigit⟩ := Layout.head?_text_number hw
    cases hc.symm.trans hd
    cases v with
    | ident => simp [absorbs, isNameChar, hdigit]
    | number => exact hdigit
    | op o => cases o <;> cases h
    | _ => cases h
  | op o =>
    cases v with
    | op o' =>
      cases o' with
      | times =>
        cases o with
        | times | pow => cases hc; rfl
        | _ => cases h
      | plus =>
        cases o with
        | assign => cases hc; rfl
        | _ => cases h
      | _ => cases h
    | _ => cases h
  | string | lparen | rparen | comma | newline =>
    cases v with
    | op o => cases o <;> cases h
    | _ => cases h

end Word

/-! ## Pieces -/

namespace Lexer

variable {c : Char} {cs : List Char} {piece : Piece} {width : Nat}

/-- What the first piece of the text `c :: cs` can be. -/
inductive IsPiece (c : Char) : (cs : List Char) → (piece : Piece) → (width : Nat) → Prop
  | blank {cs : List Char} (hc : c = ' ' ∨ c = '\t' ∨ (c = '\r' ∧ cs.head? = some '\n')) :
      IsPiece c cs .blank 0
  | comment {cs : List Char} (hc : c = '#') :
      IsPiece c cs .comment ((cs.takeWhile (· ≠ '\n')).length + 1)
  /-- A word, behind which stands no character that would belong to it. -/
  | word (w : Word) (ds cs : List Char) (hw : w.isSpelled) (htext : w.text = c :: ds)
      (hend : ∀ d ∈ cs.head?, w.absorbs d = false) :
      IsPiece c (ds ++ cs) (.token w.payload.1 w.payload.2.1 w.payload.2.2) ds.length

theorem isPiece_double {o : Operator} (h : cs.head?.bind (double? c) = some o) :
    IsPiece c cs (.token .op o.symbol (some (.op o))) 1 := by
  cases cs with
  | nil => cases h
  | cons d cs =>
    have htext : o.symbol.toList = [c, d] ∧ ∀ e, (Word.op o).absorbs e = false := by
      simp only [List.head?_cons, Option.bind_some, double?] at h
      split at h
      · next hcd => cases h; exact ⟨by rw [hcd.1, hcd.2]; rfl, fun _ => rfl⟩
      split at h
      · next hcd => cases h; exact ⟨by rw [hcd.1, hcd.2]; rfl, fun _ => rfl⟩
      split at h
      · next hcd => cases h; exact ⟨by rw [hcd.1, hcd.2]; rfl, fun _ => rfl⟩
      · cases h
    exact .word (.op o) [d] cs rfl htext.1 fun e _ => htext.2 e

/-- A character alone is a token only if it does not make an operator with the next one. -/
theorem isPiece_single {kind : TokenKind} {value : Option TokenValue}
    (hdouble : cs.head?.bind (double? c) = none) (h : single? c = some (kind, value)) :
    IsPiece c cs (.token kind (String.singleton c) value) 0 := by
  have hnext (d e : Char) {o : Operator} (hc : c = d) (ho : double? d e = some o) :
      ∀ x ∈ cs.head?, decide (x = e) = false := by
    intro x hx
    rw [decide_eq_false_iff_not]
    rintro rfl
    rw [Option.mem_def.1 hx, Option.bind_some, hc, ho] at hdouble
    cases hdouble
  unfold single? at h
  split at h <;> cases h
  · exact .word .lparen [] cs rfl rfl fun _ _ => rfl
  · exact .word .rparen [] cs rfl rfl fun _ _ => rfl
  · exact .word .comma [] cs rfl rfl fun _ _ => rfl
  · exact .word (.op .minus) [] cs rfl rfl fun _ _ => rfl
  · exact .word (.op .mod) [] cs rfl rfl fun _ _ => rfl
  · exact .word (.op .assign) [] cs rfl rfl fun _ _ => rfl
  · exact .word (.op .times) [] cs rfl rfl (hnext '*' '*' rfl rfl)
  · exact .word (.op .plus) [] cs rfl rfl (hnext '+' '=' rfl rfl)

theorem head?_dropWhile_eq_false {p : Char → Bool} :
    ∀ d ∈ (cs.dropWhile p).head?, p d = false := by
  intro d hd
  have hhead := List.head?_dropWhile_not p cs
  rw [Option.mem_def.1 hd] at hhead
  exact hhead

theorem isPiece_number (hc : isDigit c) (h : cutNumber c cs = .ok (piece, width)) :
    IsPiece c cs piece width := by
  unfold cutNumber at h
  dsimp only at h
  split at h
  · next hvalue =>
    cases h
    let digits := c :: cs.takeWhile isDigit
    have hw : (Word.number (String.ofList digits)).isSpelled := by
      simp [Word.isSpelled, isLiteral, digits, hc, hvalue]
    have hpiece := IsPiece.word _ (cs.takeWhile isDigit) (cs.dropWhile isDigit) hw
      String.toList_ofList head?_dropWhile_eq_false
    rw [List.takeWhile_append_dropWhile] at hpiece
    simpa [Word.payload, digits] using hpiece
  · cases h

theorem isPiece_name (hc : isNameStart c) :
    IsPiece c cs (.token .ident (String.ofList (c :: cs.takeWhile isNameChar)) none)
      (cs.takeWhile isNameChar).length := by
  have hw : (Word.ident (String.ofList (c :: cs.takeWhile isNameChar))).isSpelled := by
    simp [Word.isSpelled, isName, hc]
  have hpiece := IsPiece.word _ (cs.takeWhile isNameChar) (cs.dropWhile isNameChar) hw
    String.toList_ofList head?_dropWhile_eq_false
  rwa [List.takeWhile_append_dropWhile] at hpiece

theorem isPiece_string (hc : c = '"') (h : cutString cs = .ok (piece, width)) :
    IsPiece c cs piece width := by
  unfold cutString at h
  dsimp only at h
  split at h
  · next hquote =>
    cases h
    let body := cs.takeWhile fun c => c ≠ '"' && c ≠ '\n'
    obtain ⟨hlt, hget⟩ := List.getElem?_eq_some_iff.1 hquote
    have hcs : body ++ ['"'] ++ cs.drop (body.length + 1) = cs := by
      have hbody : body = cs.take body.length :=
        List.prefix_iff_eq_take.1 (List.takeWhile_prefix _)
      have hdrop : cs.drop body.length = '"' :: cs.drop (body.length + 1) := by
        rw [List.drop_eq_getElem_cons hlt, hget]
      calc body ++ ['"'] ++ cs.drop (body.length + 1)
          = body ++ cs.drop body.length := by
            rw [hdrop, List.append_assoc, List.singleton_append]
        _ = cs.take body.length ++ cs.drop body.length := by rw [← hbody]
        _ = cs := List.take_append_drop body.length cs
    have hw : (Word.string (String.ofList body)).isSpelled := by
      simp only [Word.isSpelled, isQuotable, String.toList_ofList]
      exact List.all_takeWhile
    have htext : (Word.string (String.ofList body)).text = c :: (body ++ ['"']) := by
      rw [Word.text, String.toList_ofList, hc]
    have hpiece := IsPiece.word _ _ (cs.drop (body.length + 1)) hw htext fun _ _ => rfl
    rwa [hcs, List.length_append] at hpiece
  · cases h

/-- **Every piece is a blank, a comment or a word.** -/
theorem cut_isPiece (h : cut c cs = .ok (piece, width)) : IsPiece c cs piece width := by
  unfold cut at h
  split at h
  · cases h
    exact .blank ‹_›
  split at h
  · next hc =>
    cases h
    exact .word .newline [] cs rfl (by rw [hc]; rfl) fun _ _ => rfl
  split at h
  · cases h
    exact .comment ‹_›
  split at h
  · cases h
    exact isPiece_double ‹_›
  next hdouble =>
  split at h
  · cases h
    exact isPiece_single hdouble ‹_›
  split at h
  · exact isPiece_number ‹_› h
  split at h
  · cases h
    exact isPiece_name ‹_›
  split at h
  · exact isPiece_string ‹_› h
  · cases h

theorem exists_of_map_eq_ok {ε α β : Type} {x : Except ε α} {f : α → β} {b : β}
    (h : x.map f = .ok b) : ∃ a, x = .ok a ∧ f a = b := by
  cases x with
  | error e => cases h
  | ok a =>
    cases h
    exact ⟨a, rfl, rfl⟩

/-- What the tokens of a text are known by: its first piece and the tokens of the rest. -/
theorem exists_of_scan_cons {loc : Loc} {lineOpen : Bool} {ts : List Token}
    (h : scan loc lineOpen [] (c :: cs) = .ok ts) :
    ∃ piece width us, cut c cs = .ok (piece, width) ∧
      scan (loc.after (c :: cs.take width)) (piece.leavesOpen lineOpen) [] (cs.drop width) = .ok us ∧
      ts = (piece.token? width loc lineOpen).toList ++ us := by
  cases hcut : cut c cs with
  | error blame =>
    rw [scan, hcut] at h
    cases h
  | ok found =>
    obtain ⟨piece, width⟩ := found
    rw [scan_cons _ _ hcut] at h
    obtain ⟨us, hus, rfl⟩ := exists_of_map_eq_ok h
    exact ⟨piece, width, us, rfl, hus, rfl⟩

end Lexer

/-! ## Words that stand together -/

/-- If a text begins with a word and its tokens do, too, then the token ends where the word does. -/
theorem Lexer.scan_text_inv {loc : Loc} {lineOpen : Bool} {w : Word} {cs : List Char}
    {ts : List Token} (hw : w.isSpelled) (h : scan loc lineOpen [] (w.text ++ cs) = .ok ts)
    (hts : [w.payload] <+: ts.map Token.payload) :
    (∀ c ∈ cs.head?, w.absorbs c = false) ∧
      ∃ t loc' lineOpen' us, ts = t :: us ∧ scan loc' lineOpen' [] cs = .ok us := by
  obtain ⟨c, ds, htext⟩ := List.exists_cons_of_ne_nil (Layout.text_ne_nil hw)
  have hhead : w.text.head? = some c := by rw [htext]; rfl
  obtain ⟨hspace, htab, hreturn, hhash⟩ := Word.head?_text_ne hw hhead
  rw [htext, List.cons_append] at h
  obtain ⟨piece, width, us, hcut, hus, rfl⟩ := exists_of_scan_cons h
  generalize hrest : ds ++ cs = rest at hcut hus
  cases cut_isPiece hcut with
  | blank hc => simp [hspace, htab, hreturn] at hc
  | comment hc => exact absurd hc hhash
  | word w' ds' cs' hw' htext' hend =>
    -- the token carries what the word does, so it is the word that was found
    have hpayload : w.payload = w'.payload := (List.cons_prefix_cons.1 hts).1
    obtain rfl := Word.payload_injective hpayload
    cases htext.symm.trans htext'
    cases List.append_cancel_left hrest
    rw [List.drop_left] at hus
    exact ⟨hend, _, _, _, us, rfl, hus⟩

/-- **Words that are found again do not merge.** -/
theorem Layout.of_scan {tight : Word → Word → Prop} {before : Option Word} {ws : List Word}
    {cs : List Char} {loc : Loc} {lineOpen : Bool} {ts : List Token}
    (h : Layout tight before ws cs) (hws : ∀ w ∈ ws, w.isSpelled)
    (hbefore : ∀ v ∈ before, ∀ c ∈ cs.head?, v.absorbs c = false)
    (hscan : scan loc lineOpen [] cs = .ok ts)
    (hts : ws.map Word.payload <+: ts.map Token.payload) :
    Layout (fun v w => ¬ v.Merges w) before ws cs := by
  induction h generalizing loc lineOpen ts with
  | nil hgap => exact .nil hgap
  | @cons before gap w ws cs hgap _ _ ih =>
    have hw : w.isSpelled := hws w (.head ws)
    rw [List.append_assoc, scan_gap _ _ hgap] at hscan
    have hfirst : [w.payload] <+: ts.map Token.payload :=
      (List.prefix_append [w.payload] (ws.map Word.payload)).trans hts
    obtain ⟨hend, t, loc', lineOpen', us, rfl, hus⟩ := scan_text_inv hw hscan hfirst
    have hrest : ws.map Word.payload <+: us.map Token.payload := (List.cons_prefix_cons.1 hts).2
    refine .cons hgap ?_ (ih (fun v hv => hws v (.tail w hv)) ?_ hus hrest)
    · -- a word that merges with `w` would absorb the first character of its text
      rintro rfl v hv hmerges
      obtain ⟨c, ds, htext⟩ := List.exists_cons_of_ne_nil (text_ne_nil hw)
      have habsorbs := Word.absorbs_of_merges hmerges hw (c := c) (by rw [htext]; rfl)
      rw [hbefore v hv c (by rw [List.nil_append, htext]; rfl)] at habsorbs
      cases habsorbs
    · rintro v ⟨⟩
      exact hend

/-- The line is open after words if the last of them is no newline. -/
theorem foldl_ne_newline (ws : List Word) :
    ws.foldl (fun _ w => decide (w ≠ .newline)) false =
      decide (ws ≠ [] ∧ ws.getLast? ≠ some .newline) := by
  rcases List.eq_nil_or_concat ws with rfl | ⟨vs, w, rfl⟩
  · rfl
  · simp

/-- The tokens of the text say the words, in this order, and a newline without spelling comes last
unless there is no word at all or the last is itself a newline. -/
def WordsOf (text : String) (ws : List Word) : Prop :=
  ∃ ts, tokenize text = .ok ts ∧
    ts.map Token.payload = ws.map Word.payload ++
      if ws ≠ [] ∧ ws.getLast? ≠ some .newline then [lineEndPayload] else []

/-- **Cutting a text undoes writing words.** Set words out as a text, with any blanks before, between
and after them, or none. They are found again as the tokens of the text if there are blanks between
those neighbours that merge: a name and a name or number after it, two numbers, `*` before `*` or
`**`, and `+` before `=`. These are the only words that need blanks, and they do need them. -/
theorem wordsOf_iff_layout (ws : List Word) (hws : ∀ w ∈ ws, w.isSpelled) (text : String)
    (htext : Layout (fun _ _ => True) none ws text.toList) :
    WordsOf text ws ↔ Layout (fun v w => ¬ v.Merges w) none ws text.toList := by
  constructor
  · rintro ⟨ts, hscan, hts⟩
    refine htext.of_scan hws nofun hscan ?_
    rw [hts]
    exact List.prefix_append _ _
  · intro h
    obtain ⟨ts, hscan, hts⟩ := scan_layout .origin false h hws
    refine ⟨ts, hscan, ?_⟩
    rw [hts, foldl_ne_newline]
    simp only [decide_eq_true_eq]

/-- In `12ab++=***"#"` no two neighbours merge, and what looks like a comment is a string. -/
theorem wordsOf_iff_layout_glued :
    let ws : List Word := [.number "12", .ident "ab", .op .plus, .op .addAssign, .op .pow, .op .times,
      .string "#"]
    let text := "12ab++=***\"#\""
    (∀ w ∈ ws, w.isSpelled) ∧ Layout (fun v w => ¬ v.Merges w) none ws text.toList ∧
      WordsOf text ws := by
  intro ws text
  have hws : ∀ w ∈ ws, w.isSpelled := by decide
  have hnil : IsGap [] := by simp [IsGap]
  have hsplit : text.toList = [] ++ (Word.number "12").text ++ ([] ++ (Word.ident "ab").text ++
      ([] ++ (Word.op .plus).text ++ ([] ++ (Word.op .addAssign).text ++ ([] ++ (Word.op .pow).text ++
      ([] ++ (Word.op .times).text ++ ([] ++ (Word.string "#").text ++ [])))))) := by decide
  have hlayout : Layout (fun v w => ¬ v.Merges w) none ws text.toList := by
    rw [hsplit]
    exact .cons hnil (by simp) (.cons hnil (by simp [Word.Merges]) (.cons hnil
      (by simp [Word.Merges]) (.cons hnil (by simp [Word.Merges]) (.cons hnil
      (by simp [Word.Merges]) (.cons hnil (by simp [Word.Merges]) (.cons hnil
      (by simp [Word.Merges]) (.nil hnil)))))))
  have hfree : Layout (fun _ _ => True) none ws text.toList := hlayout.mono fun _ _ _ => trivial
  exact ⟨hws, hlayout, (wordsOf_iff_layout ws hws text hfree).2 hlayout⟩

end Reckon
