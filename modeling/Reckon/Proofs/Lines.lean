import Reckon.Proofs.Acceptance
import Reckon.Proofs.Pieces
import Reckon.Proofs.Shift

/-!
# Lines of a text

A program can be cut after each of its lines and the parts are programs again. No piece of text goes
on beyond the end of a line, a line that is closed leaves nothing open for the next one, and no
statement of the grammar contains a newline.

* `IsCut` is what the pieces of a text can be, as far as lines are concerned; `cut_isCut` proves it.
* `scan_eq_firstLine` finds the tokens of a text line by line, and `scan_oneLine` says that those of
  one line have their only newline at their end.
* `scan_append` goes on from single lines to texts of whole lines: whatever is put behind them, their
  tokens stay what they are.
-/

namespace Reckon

/-! ## The first line -/

namespace Text

variable {c : Char} {cs ds : List Char} {p : Char → Bool}

theorem head?_firstLine (cs : List Char) : (firstLine cs).head? = cs.head? := by
  cases cs with
  | nil => rfl
  | cons c cs => by_cases hc : c = '\n' <;> simp [firstLine, hc]

theorem takeWhile_firstLine (hp : p '\n' = false) (cs : List Char) :
    (firstLine cs).takeWhile p = cs.takeWhile p := by
  induction cs with
  | nil => rfl
  | cons c cs ih =>
    by_cases hc : c = '\n'
    · simp [firstLine, hc, hp]
    · simp [firstLine, hc, List.takeWhile_cons, ih]

/-- What stands behind the longest match stands on the first line. -/
theorem getElem?_firstLine (hp : p '\n' = false) (cs : List Char) :
    (firstLine cs)[(cs.takeWhile p).length]? = cs[(cs.takeWhile p).length]? := by
  induction cs with
  | nil => rfl
  | cons c cs ih =>
    by_cases hc : c = '\n'
    · simp [firstLine, hc, hp]
    · by_cases hpc : p c <;> simp [firstLine, hc, hpc, ih]

theorem firstLine_append (hds : '\n' ∉ ds) : firstLine (ds ++ cs) = ds ++ firstLine cs := by
  induction ds with
  | nil => rfl
  | cons d ds ih =>
    simp only [List.mem_cons, not_or] at hds
    rw [List.cons_append, firstLine, if_neg (Ne.symm hds.1), ih hds.2, List.cons_append]

theorem afterFirstLine_append (hds : '\n' ∉ ds) : afterFirstLine (ds ++ cs) = afterFirstLine cs := by
  induction ds with
  | nil => rfl
  | cons d ds ih =>
    simp only [List.mem_cons, not_or] at hds
    rw [List.cons_append, afterFirstLine, if_neg (Ne.symm hds.1), ih hds.2]

theorem take_firstLine (cs : List Char) :
    cs.take ((cs.takeWhile (· ≠ '\n')).length + 1) = firstLine cs := by
  induction cs with
  | nil => rfl
  | cons c cs ih => by_cases hc : c = '\n' <;> simp_all [firstLine]

theorem drop_firstLine (cs : List Char) :
    cs.drop ((cs.takeWhile (· ≠ '\n')).length + 1) = afterFirstLine cs := by
  induction cs with
  | nil => rfl
  | cons c cs ih => by_cases hc : c = '\n' <;> simp_all [afterFirstLine]

theorem firstLine_firstLine (cs : List Char) : firstLine (firstLine cs) = firstLine cs := by
  induction cs with
  | nil => rfl
  | cons c cs ih => by_cases hc : c = '\n' <;> simp [firstLine, hc, ih]

theorem afterFirstLine_firstLine (cs : List Char) : afterFirstLine (firstLine cs) = [] := by
  induction cs with
  | nil => rfl
  | cons c cs ih => by_cases hc : c = '\n' <;> simp [firstLine, afterFirstLine, hc, ih]

theorem getLast?_firstLine (h : '\n' ∈ cs) : (firstLine cs).getLast? = some '\n' := by
  induction cs with
  | nil => cases h
  | cons c cs ih =>
    by_cases hc : c = '\n'
    · rw [firstLine, if_pos hc, hc]
      rfl
    · have hrest := ih ((List.mem_cons.1 h).resolve_left (Ne.symm hc))
      rw [firstLine, if_neg hc, List.getLast?_cons, hrest]
      rfl

end Text

open Text

/-! ## Tokens of a line -/

namespace Lexer

variable {c : Char} {cs : List Char} {piece : Piece} {width : Nat}

/-- The first piece of a text depends on its first line alone. -/
theorem cut_firstLine (c : Char) (cs : List Char) : cut c (firstLine cs) = cut c cs := by
  have hnumber : cutNumber c (firstLine cs) = cutNumber c cs := by
    unfold cutNumber
    rw [takeWhile_firstLine rfl]
  have hstring : cutString (firstLine cs) = cutString cs := by
    unfold cutString
    rw [takeWhile_firstLine rfl]
    dsimp only
    rw [getElem?_firstLine rfl]
  unfold cut
  rw [head?_firstLine, hnumber, hstring, takeWhile_firstLine rfl, takeWhile_firstLine rfl]

/-- What the first piece of the text `c :: cs` can be. Only a newline and a comment reach the end of
the line. -/
inductive IsCut (c : Char) : (cs : List Char) → (piece : Piece) → (width : Nat) → Prop
  | newline {cs : List Char} (hc : c = '\n') : IsCut c cs (.token .newline "\n" none) 0
  | comment {cs : List Char} (hc : c ≠ '\n') :
      IsCut c cs .comment ((cs.takeWhile (· ≠ '\n')).length + 1)
  | blank {cs : List Char} (hc : c ≠ '\n') : IsCut c cs .blank 0
  | token {ds cs : List Char} {kind : TokenKind} {lexeme : String} {value : Option TokenValue}
      (hc : c ≠ '\n') (hds : '\n' ∉ ds) (hkind : kind ≠ .newline) :
      IsCut c (ds ++ cs) (.token kind lexeme value) ds.length

/-- **Every piece is of one of these kinds.** -/
theorem cut_isCut (h : cut c cs = .ok (piece, width)) : IsCut c cs piece width := by
  cases cut_isPiece h with
  | blank hc =>
    refine .blank ?_
    rintro rfl
    simp at hc
  | comment hc =>
    refine .comment ?_
    rintro rfl
    cases hc
  | word w ds cs hw htext =>
    by_cases hne : w = .newline
    · subst hne
      cases htext
      exact .newline rfl
    · have hmem := Word.newline_not_mem_text hw hne
      rw [htext, List.mem_cons, not_or] at hmem
      exact .token (Ne.symm hmem.1) hmem.2 fun hkind => hne (Word.payload_kind_eq_newline_iff.1 hkind)

variable (loc : Loc) (lineOpen : Bool)

/-- A comment goes on to the end of its line and closes it. -/
theorem scan_hash (cs : List Char) :
    scan loc lineOpen [] ('#' :: cs) =
      (scan (loc.after ('#' :: firstLine cs)) false [] (afterFirstLine cs)).map
        ((if lineOpen then [lineEnd loc] else []) ++ ·) := by
  have hcut : cut '#' cs = .ok (.comment, (cs.takeWhile (· ≠ '\n')).length + 1) := rfl
  rw [scan_cons _ _ hcut, take_firstLine, drop_firstLine]
  cases lineOpen <;> rfl

/-- A newline token that was read from a line feed. -/
def lineFeed (loc : Loc) : Token := ⟨.newline, "\n", .point loc, none⟩

theorem scan_feed (cs : List Char) :
    scan loc lineOpen [] ('\n' :: cs) =
      (scan (loc.after ['\n']) false [] cs).map (lineFeed loc :: ·) := by
  have hcut : cut '\n' cs = .ok (.token .newline "\n" none, 0) := rfl
  have hspan : (⟨loc, loc.right 0⟩ : Span) = .point loc := by simp [Span.point, Loc.right]
  rw [scan_cons loc lineOpen hcut, Piece.token?, hspan]
  rfl

/-- The tokens of a text, found by way of its first line: those of the line, and those of what follows
it. -/
def scanByLine (cs : List Char) : Except Diagnostic (List Token) :=
  (scan loc lineOpen [] (firstLine cs)).bind fun ts =>
    (scan (loc.after (firstLine cs)) false [] (afterFirstLine cs)).map (ts ++ ·)

theorem scan_newline (cs : List Char) :
    scan loc lineOpen [] ('\n' :: cs) = scanByLine loc lineOpen ('\n' :: cs) := by
  show _ = (scan loc lineOpen [] ['\n']).bind fun ts =>
    (scan (loc.after ['\n']) false [] cs).map (ts ++ ·)
  rw [scan_feed, scan_feed, scan_nil]
  rfl

theorem scan_comment (hc : c ≠ '\n')
    (hcut : cut c cs = .ok (.comment, (cs.takeWhile (· ≠ '\n')).length + 1)) :
    scan loc lineOpen [] (c :: cs) = scanByLine loc lineOpen (c :: cs) := by
  have hcut' := (cut_firstLine c cs).trans hcut
  have hle : (firstLine cs).length ≤ (cs.takeWhile (· ≠ '\n')).length + 1 := by
    rw [← take_firstLine, List.length_take]
    omega
  rw [scanByLine, firstLine, afterFirstLine, if_neg hc, if_neg hc, scan_cons _ _ hcut, scan_cons _ _ hcut',
    take_firstLine, drop_firstLine, List.take_of_length_le hle, List.drop_of_length_le hle, scan_nil]
  cases lineOpen <;> rfl

/-- A piece that ends before its line does is the same piece on the line alone. -/
theorem scan_within {ds : List Char} (hc : c ≠ '\n') (hds : '\n' ∉ ds)
    (hcut : cut c (ds ++ cs) = .ok (piece, ds.length))
    (hrest : scan (loc.after (c :: ds)) (piece.leavesOpen lineOpen) [] cs =
      scanByLine (loc.after (c :: ds)) (piece.leavesOpen lineOpen) cs) :
    scan loc lineOpen [] (c :: (ds ++ cs)) = scanByLine loc lineOpen (c :: (ds ++ cs)) := by
  have hcut' := (cut_firstLine c (ds ++ cs)).trans hcut
  rw [firstLine_append hds] at hcut'
  rw [scanByLine, firstLine, afterFirstLine, if_neg hc, if_neg hc, firstLine_append hds,
    afterFirstLine_append hds, scan_cons _ _ hcut, scan_cons _ _ hcut', List.take_left,
    List.drop_left, List.take_left, List.drop_left, hrest, scanByLine, ← List.cons_append,
    Loc.after_append]
  cases scan (loc.after (c :: ds)) (piece.leavesOpen lineOpen) [] (firstLine cs) with
  | error d => rfl
  | ok ts =>
    dsimp only [Except.bind, Except.map]
    cases scan ((loc.after (c :: ds)).after (firstLine cs)) false [] (afterFirstLine cs) with
    | error d => rfl
    | ok us => simp only [List.append_assoc]

/-- **Tokens are found line by line.** Nothing is carried over from one line to the next but the
place. -/
theorem scan_eq_firstLine (cs : List Char) :
    scan loc lineOpen [] cs = scanByLine loc lineOpen cs := by
  -- the induction is on the length, since a piece can be of any width
  induction hlen : cs.length using Nat.strongRecOn generalizing loc lineOpen cs with
  | _ len ih =>
    cases cs with
    | nil =>
      rw [scanByLine, firstLine, afterFirstLine, scan_nil, scan_nil]
      cases lineOpen <;> rfl
    | cons c cs =>
      cases hcut : cut c cs with
      | error blame =>
        have hc : c ≠ '\n' := by
          rintro rfl
          cases hcut
        rw [scanByLine, firstLine, if_neg hc, scan, scan, cut_firstLine, hcut]
        rfl
      | ok found =>
        obtain ⟨piece, width⟩ := found
        cases cut_isCut hcut with
        | newline hc =>
          subst hc
          exact scan_newline loc lineOpen cs
        | comment hc => exact scan_comment loc lineOpen hc hcut
        | blank hc =>
          refine scan_within loc lineOpen hc List.not_mem_nil hcut (ih _ ?_ _ _ _ rfl)
          rw [← hlen, List.length_cons]
          omega
        | @token ds cs kind lexeme value hc hds hkind =>
          refine scan_within loc lineOpen hc hds hcut (ih _ ?_ _ _ _ rfl)
          rw [← hlen, List.length_cons, List.length_append]
          omega

/-- **The tokens of one line** are those on the line and the newline that closes it, unless there are
none at all. -/
theorem scan_oneLine {cs : List Char} {ts : List Token} (hcs : afterFirstLine cs = [])
    (h : scan loc lineOpen [] cs = .ok ts) :
    (ts = [] ∧ lineOpen = false) ∨
      ∃ body t, ts = body ++ [t] ∧ t.kind = .newline ∧ ∀ u ∈ body, u.kind ≠ .newline := by
  induction hlen : cs.length using Nat.strongRecOn generalizing loc lineOpen cs ts with
  | _ len ih =>
    cases cs with
    | nil =>
      rw [scan_nil] at h
      cases h
      cases lineOpen with
      | false => exact .inl ⟨rfl, rfl⟩
      | true => exact .inr ⟨[], lineEnd loc, rfl, rfl, by simp⟩
    | cons c cs =>
      obtain ⟨piece, width, us, hcut, hus, rfl⟩ := exists_of_scan_cons h
      cases cut_isCut hcut with
      | newline hc =>
        subst hc
        have hnil : cs = [] := hcs
        rw [hnil, List.drop_nil, scan_nil] at hus
        cases hus
        exact .inr ⟨[], _, rfl, rfl, by simp⟩
      | comment hc =>
        rw [afterFirstLine, if_neg hc] at hcs
        rw [drop_firstLine, hcs, scan_nil] at hus
        cases hus
        cases lineOpen with
        | false => exact .inl ⟨rfl, rfl⟩
        | true => exact .inr ⟨[], _, rfl, rfl, by simp⟩
      | blank hc =>
        rw [afterFirstLine, if_neg hc] at hcs
        have hlt : cs.length < len := by
          rw [← hlen, List.length_cons]
          omega
        exact ih cs.length hlt (loc.after [c]) lineOpen hcs hus rfl
      | @token ds cs kind lexeme value hc hds hkind =>
        rw [afterFirstLine, if_neg hc, afterFirstLine_append hds] at hcs
        have hopen : (Piece.token kind lexeme value).leavesOpen lineOpen = true := by
          simpa [Piece.leavesOpen] using hkind
        rw [List.take_left, List.drop_left, hopen] at hus
        have hlt : cs.length < len := by
          rw [← hlen, List.length_cons, List.length_append]
          omega
        -- the line is open behind the token, so there is a newline that closes it
        obtain ⟨-, hfalse⟩ | ⟨body, t, rfl, ht, hbody⟩ := ih cs.length hlt _ true hcs hus rfl
        · cases hfalse
        · refine .inr ⟨⟨kind, lexeme, ⟨loc, loc.right ds.length⟩, value⟩ :: body, t, rfl, ht, ?_⟩
          rw [List.forall_mem_cons]
          exact ⟨hkind, hbody⟩

end Lexer

/-! ## Texts one after the other -/

/-- Every line feed leads to the next row. -/
theorem Loc.row_after (l : Loc) (cs : List Char) : (l.after cs).row = l.row + cs.count '\n' := by
  induction cs generalizing l with
  | nil => simp
  | cons c cs ih =>
    rw [Loc.after_cons, ih, Loc.next, List.count_cons]
    by_cases hc : c = '\n'
    · simp only [hc, if_true, beq_self_eq_true]
      omega
    · simp [hc]

namespace Text

variable {cs ds : List Char}

/-- The text is made of whole lines: it is empty or ends in a line feed. -/
def IsWholeLines (cs : List Char) : Prop := cs = [] ∨ cs.getLast? = some '\n'

theorem firstLine_append_of_mem (h : '\n' ∈ cs) : firstLine (cs ++ ds) = firstLine cs := by
  induction cs with
  | nil => cases h
  | cons c cs ih =>
    by_cases hc : c = '\n'
    · rw [List.cons_append, firstLine, firstLine, if_pos hc, if_pos hc]
    · have hmem : '\n' ∈ cs := (List.mem_cons.1 h).resolve_left (Ne.symm hc)
      rw [List.cons_append, firstLine, firstLine, if_neg hc, if_neg hc, ih hmem]

theorem afterFirstLine_append_of_mem (h : '\n' ∈ cs) :
    afterFirstLine (cs ++ ds) = afterFirstLine cs ++ ds := by
  induction cs with
  | nil => cases h
  | cons c cs ih =>
    by_cases hc : c = '\n'
    · rw [List.cons_append, afterFirstLine, afterFirstLine, if_pos hc, if_pos hc]
    · have hmem : '\n' ∈ cs := (List.mem_cons.1 h).resolve_left (Ne.symm hc)
      rw [List.cons_append, afterFirstLine, afterFirstLine, if_neg hc, if_neg hc, ih hmem]

namespace IsWholeLines

theorem mem (h : IsWholeLines cs) (hcs : cs ≠ []) : '\n' ∈ cs := by
  rcases h with hnil | hlast
  · exact absurd hnil hcs
  · exact List.mem_of_getLast? hlast

/-- Behind the first of whole lines there are whole lines. -/
theorem afterFirstLine (h : IsWholeLines cs) : IsWholeLines (afterFirstLine cs) := by
  by_cases hrest : Text.afterFirstLine cs = []
  · exact .inl hrest
  · rw [← firstLine_append_afterFirstLine cs] at h
    rcases h with hnil | hlast
    · exact .inl (List.append_eq_nil_iff.1 hnil).2
    · rw [List.getLast?_append, List.getLast?_eq_some_getLast hrest] at hlast
      rw [IsWholeLines, List.getLast?_eq_some_getLast hrest]
      exact .inr hlast

/-- Behind whole lines a text begins at the start of a row, as many rows further down as there are
lines. -/
theorem origin_after (h : IsWholeLines cs) :
    Loc.origin.after cs = Loc.origin.down (cs.count '\n') := by
  rcases h with rfl | hlast
  · simp
  · obtain ⟨ds, rfl⟩ := List.getLast?_eq_some_iff.1 hlast
    have hrow := Loc.row_after .origin (ds ++ ['\n'])
    rw [Loc.after_append] at hrow ⊢
    rw [Loc.down, ← hrow]
    rfl

theorem append (hcs : IsWholeLines cs) (hds : IsWholeLines ds) : IsWholeLines (cs ++ ds) := by
  rcases hds with rfl | hlast
  · rwa [List.append_nil]
  · right
    rw [List.getLast?_append, hlast]
    rfl

theorem of_append (h : IsWholeLines (cs ++ ds)) : IsWholeLines ds := by
  cases ds with
  | nil => exact .inl rfl
  | cons d ds =>
    right
    rcases h with hnil | hlast
    · simp at hnil
    · rw [← hlast, List.getLast?_append, List.getLast?_cons]
      rfl

end IsWholeLines

/-- The first line is a whole one unless it is the last. -/
theorem isWholeLines_firstLine (cs : List Char) :
    IsWholeLines (firstLine cs) ∨ afterFirstLine cs = [] := by
  by_cases hmem : '\n' ∈ cs
  · exact .inl (.inr (getLast?_firstLine hmem))
  · have hafter : afterFirstLine (cs ++ []) = [] := afterFirstLine_append hmem
    rw [List.append_nil] at hafter
    exact .inr hafter

end Text

namespace Lexer

/-- **Tokens are found part by part**, if the first part is made of whole lines. -/
theorem scan_append {cs : List Char} (h : IsWholeLines cs) (loc : Loc) (ds : List Char) :
    scan loc false [] (cs ++ ds) =
      (scan loc false [] cs).bind fun ts => (scan (loc.after cs) false [] ds).map (ts ++ ·) := by
  induction hlen : cs.length using Nat.strongRecOn generalizing loc cs with
  | _ len ih =>
    by_cases hnil : cs = []
    · subst hnil
      rw [List.nil_append, scan_nil, Loc.after_nil]
      cases scan loc false [] ds <;> rfl
    · have hmem := h.mem hnil
      have hrest := ih _ (by rw [← hlen]; exact length_afterFirstLine_lt hnil) h.afterFirstLine
        (loc.after (firstLine cs)) rfl
      rw [← Loc.after_append, firstLine_append_afterFirstLine] at hrest
      rw [scan_eq_firstLine, scan_eq_firstLine loc false cs, scanByLine, scanByLine,
        firstLine_append_of_mem hmem, afterFirstLine_append_of_mem hmem, hrest]
      cases scan loc false [] (firstLine cs) with
      | error d => rfl
      | ok ts =>
        cases scan (loc.after (firstLine cs)) false [] (afterFirstLine cs) with
        | error d => rfl
        | ok us =>
          cases scan (loc.after cs) false [] ds with
          | error d => rfl
          | ok vs => exact congrArg Except.ok (List.append_assoc ts us vs).symm

end Lexer

/-- **The tokens of two texts, one after the other.** The first is made of whole lines. If both have
tokens then the whole has these tokens, those of the second text being as many rows further down as
there are lines in the first. If the first text is refused then the whole is refused for the same
reason, at the same place. If only the second is refused then so is the whole, for the same reason and
so many rows further down. -/
theorem tokenize_append (s t : String) (hs : IsWholeLines s.toList) :
    tokenize (s ++ t) =
      match tokenize s, tokenize t with
      | .ok ts, .ok us => .ok (ts ++ us.map (Token.down (s.toList.count '\n')))
      | .error d, _ => .error d
      | .ok _, .error d => .error (d.down (s.toList.count '\n')) := by
  rw [tokenize, String.toList_append, Lexer.scan_append hs, hs.origin_after, Lexer.scan_down,
    tokenize, tokenize]
  cases Lexer.scan .origin false [] s.toList with
  | error d => rfl
  | ok ts => cases Lexer.scan .origin false [] t.toList <;> rfl

/-- The first text ends in a comment that closes an open line; the second is refused at its start, in
what is the third row of the whole. -/
theorem tokenize_append_comment :
    let s := "x = 1\n y # note\n"
    let t := "/ 2"
    IsWholeLines s.toList ∧ (tokenize s).isOk ∧
      tokenize (s ++ t) = .error ⟨.lexical (.unexpectedCharacter '/'), .point ⟨3, 1⟩⟩ := by
  intro s t
  have hs : IsWholeLines s.toList := .inr (by decide)
  have hfirst : (tokenize s).isOk := by decide +kernel
  have hsecond : tokenize t = .error ⟨.lexical (.unexpectedCharacter '/'), .point .origin⟩ := by
    have htext : t.toList = ['/', ' ', '2'] := by decide
    rw [tokenize, htext, Lexer.scan]
    rfl
  have hcount : s.toList.count '\n' = 2 := by decide
  refine ⟨hs, hfirst, ?_⟩
  rw [tokenize_append s t hs, hsecond, hcount]
  cases hts : tokenize s with
  | ok ts => rfl
  | error d =>
    rw [hts] at hfirst
    cases hfirst

end Reckon
