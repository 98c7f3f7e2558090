import Reckon.Proofs.Lines
import Reckon.Proofs.Newlines
import Reckon.Proofs.Stages

/-!
# Line ends

A line may end in a comment, and its line feed may stand behind a carriage return. Neither is seen in
the program: the trees are the same with all their spans, and an error is the same error. Only an
error at a line feed moves along with it.

In the tokens there are traces of both. A comment swallows its line feed, and closes the line in its
place if there is anything to close; a carriage return shifts the newline behind it by one column. The
proof follows the scanner piece by piece through two texts at once:

* `ScansAlike` says that two texts have tokens that are `Alike`, or are refused for the same reason.
* `ScansAlike.step` and `ScansAlike.comment` pass over a first piece that the texts share.
* `scan_comment_alike` and `scan_withReturns_alike` go through whole texts. Each has one kind of place
  where the texts differ, at the end of a line.
* `Program.ofSource_alike` goes on from tokens to programs.
-/

namespace Reckon

open Lexer Text

/-! ## Texts with like tokens -/

namespace Lexer

variable {c : Char} {cs cs' : List Char} {loc : Loc} {lineOpen : Bool} {ts ws : List Token}
  {piece : Piece} {near : Token → Token → Prop} {x y : Except Diagnostic (List Token)}

theorem lineOpenAfter_token? (piece : Piece) (width : Nat) (loc : Loc) (lineOpen : Bool) :
    lineOpenAfter lineOpen (piece.token? width loc lineOpen).toList = piece.leavesOpen lineOpen := by
  cases piece with
  | blank => rfl
  | comment => cases lineOpen <;> rfl
  | token => rfl

/-- The last line of a text is closed. -/
theorem lineOpenAfter_of_scan (h : scan loc lineOpen [] cs = .ok ts) :
    lineOpenAfter lineOpen ts = false := by
  induction hlen : cs.length using Nat.strongRecOn generalizing loc lineOpen cs ts with
  | _ len ih =>
    cases cs with
    | nil =>
      rw [scan_nil] at h
      cases h
      cases lineOpen <;> rfl
    | cons c cs =>
      obtain ⟨piece, width, us, -, hus, rfl⟩ := exists_of_scan_cons h
      have hlt : (cs.drop width).length < len := by
        rw [← hlen, List.length_drop, List.length_cons]
        omega
      rw [lineOpenAfter_append, lineOpenAfter_token?]
      exact ih _ hlt hus rfl

/-- Two texts are refused for the same reason, or have tokens that are alike. -/
inductive ScansAlike (near : Token → Token → Prop) (lineOpen : Bool) :
    (x y : Except Diagnostic (List Token)) → Prop
  | error (d : Diagnostic) : ScansAlike near lineOpen (.error d) (.error d)
  | ok {ts us : List Token} (h : Alike near lineOpen ts us) :
      ScansAlike near lineOpen (.ok ts) (.ok us)

theorem ScansAlike.map_append (hnear : ∀ t ∈ ws, near t t)
    (h : ScansAlike near (lineOpenAfter lineOpen ws) x y) :
    ScansAlike near lineOpen (x.map (ws ++ ·)) (y.map (ws ++ ·)) := by
  cases h with
  | error d => exact .error d
  | ok h => exact .ok (h.append hnear)

/-- A first piece that ends within its line. -/
theorem ScansAlike.step (ds : List Char) (hcut : cut c (ds ++ cs) = .ok (piece, ds.length))
    (hcut' : cut c (ds ++ cs') = .ok (piece, ds.length))
    (hnear : ∀ t ∈ piece.token? ds.length loc lineOpen, near t t)
    (h : ScansAlike near (piece.leavesOpen lineOpen)
      (scan (loc.after (c :: ds)) (piece.leavesOpen lineOpen) [] cs)
      (scan (loc.after (c :: ds)) (piece.leavesOpen lineOpen) [] cs')) :
    ScansAlike near lineOpen (scan loc lineOpen [] (c :: (ds ++ cs)))
      (scan loc lineOpen [] (c :: (ds ++ cs'))) := by
  rw [scan_cons _ _ hcut, scan_cons _ _ hcut', List.take_left, List.take_left, List.drop_left,
    List.drop_left]
  refine .map_append (by simpa using hnear) ?_
  rwa [lineOpenAfter_token?]

/-- A first piece that is a comment. -/
theorem ScansAlike.comment (hnear : near (lineEnd loc) (lineEnd loc))
    (h : ScansAlike near false (scan (loc.after ('#' :: firstLine cs)) false [] (afterFirstLine cs))
      (scan (loc.after ('#' :: firstLine cs')) false [] (afterFirstLine cs'))) :
    ScansAlike near lineOpen (scan loc lineOpen [] ('#' :: cs))
      (scan loc lineOpen [] ('#' :: cs')) := by
  rw [scan_hash, scan_hash]
  cases lineOpen with
  | false => exact .map_append (List.forall_mem_nil _) h
  | true => exact .map_append (by simpa using hnear) h

end Lexer

/-! ## From tokens to programs -/

/-- The token at which a text is refused as a program, if it has tokens at all. -/
def Program.refusedToken? (source : String) : Option Token :=
  match tokenize source with
  | .error _ => none
  | .ok ts => (Parser.program nestingLimit).refused? ts

/-- **Texts with like tokens are the same program, or are refused alike.** -/
theorem Program.ofSource_alike {near : Token → Token → Prop} {s s' : String}
    (h : ScansAlike near false (tokenize s) (tokenize s')) :
    (∃ p, Program.ofSource s = .ok p ∧ Program.ofSource s' = .ok p) ∨
      ∃ d d', Program.ofSource s = .error (.diagnostic d) ∧
        Program.ofSource s' = .error (.diagnostic d') ∧
        (Program.refusedToken? s = none ∧ d' = d ∨
          ∃ t u, Program.refusedToken? s = some t ∧ t.Matches near u ∧ d.span = t.span ∧
            d'.report = { d.report with span := u.span }) := by
  rw [Program.ofSource_eq, Program.ofSource_eq, Program.refusedToken?]
  generalize hs : tokenize s = x, hs' : tokenize s' = y at h
  cases h with
  | error d =>
    rw [readTokens_of_error hs, readTokens_of_error hs']
    exact .inr ⟨d, d, rfl, rfl, .inl ⟨rfl, rfl⟩⟩
  | ok h =>
    rw [readTokens_of_ok hs, readTokens_of_ok hs']
    rcases Program.ofTokens_alike (tokenize_sound hs).1 h with hok | ⟨d, d', t, u, hd, hd', hrefused⟩
    · exact .inl hok
    · exact .inr ⟨d, d', hd, hd', .inr ⟨t, u, hrefused⟩⟩

/-! ## Comments -/

/-- The tokens stand at the same place. -/
def Token.SameSpan (t u : Token) : Prop := t.span = u.span

theorem Token.SameSpan.refl (t : Token) : t.SameSpan t := rfl

theorem Word.absorbs_lineEnd (w : Word) : w.absorbs '#' = false ∧ w.absorbs '\n' = false := by
  cases w with
  | op o => cases o <;> decide
  | _ => exact ⟨rfl, rfl⟩

/-- The text is empty or begins at the end of a line. -/
def Text.IsLineEnd (cs : List Char) : Prop := cs = [] ∨ ∃ ds, cs = '\n' :: ds

theorem Text.IsLineEnd.head? {cs : List Char} (h : IsLineEnd cs) :
    ∀ d ∈ cs.head?, d = '#' ∨ d = '\n' := by
  rcases h with rfl | ⟨ds, rfl⟩ <;> simp

namespace Lexer

variable {body cs cs' ds ds' rest : List Char} {loc : Loc} {lineOpen : Bool} {ts : List Token}

/-- It makes no difference to what follows a line how long the line is. -/
theorem scan_after_line (hrest : IsLineEnd rest) (loc : Loc) (hds : '\n' ∉ ds) (hds' : '\n' ∉ ds') :
    scan (loc.after (ds ++ firstLine rest)) false [] (afterFirstLine rest) =
      scan (loc.after (ds' ++ firstLine rest)) false [] (afterFirstLine rest) := by
  rcases hrest with rfl | ⟨rest, rfl⟩
  · rw [afterFirstLine, scan_nil, scan_nil]
    rfl
  · have hloc {ds : List Char} (hds : '\n' ∉ ds) :
        loc.after (ds ++ firstLine ('\n' :: rest)) = ⟨loc.row + 1, 1⟩ := by
      rw [Loc.after_append, Loc.after_of_not_mem _ hds]
      rfl
    rw [hloc hds, hloc hds']

/-- A word is still a word if a comment or the end of a line is put behind it. -/
theorem cut_word {c : Char} {w : Word} (hw : w.isSpelled) (htext : w.text = c :: ds)
    (hend : ∀ d ∈ cs.head?, w.absorbs d = false) (hrest : ∀ d ∈ rest.head?, d = '#' ∨ d = '\n') :
    cut c (ds ++ (cs ++ rest)) =
      .ok (.token w.payload.1 w.payload.2.1 w.payload.2.2, ds.length) := by
  have hend' : ∀ d ∈ (cs ++ rest).head?, w.absorbs d = false := by
    cases cs with
    | nil =>
      intro d hd
      rcases hrest d hd with rfl | rfl
      · exact w.absorbs_lineEnd.1
      · exact w.absorbs_lineEnd.2
    | cons => exact hend
  obtain ⟨c', ds', htext', hcut⟩ := cut_text hw hend'
  cases htext.symm.trans htext'
  exact hcut

theorem alike_of_scan (h : scan loc lineOpen [] cs = .ok ts) :
    Alike Token.SameSpan lineOpen ts ts := by
  have hnil : Alike Token.SameSpan (lineOpenAfter lineOpen ts) [] [] := by
    rw [lineOpenAfter_of_scan h]
    exact .nil
  have hts := hnil.append fun t _ => Token.SameSpan.refl t
  rwa [List.append_nil] at hts

theorem ScansAlike.refl (loc : Loc) (lineOpen : Bool) (cs : List Char) :
    ScansAlike Token.SameSpan lineOpen (scan loc lineOpen [] cs) (scan loc lineOpen [] cs) := by
  cases hscan : scan loc lineOpen [] cs with
  | error d => exact .error d
  | ok ts => exact .ok (alike_of_scan hscan)

/-- **A comment at the end of a line.** If the line is open, the comment closes it where its line feed
would. Otherwise there is a newline less. -/
theorem scansAlike_lineEnd (hbody : '\n' ∉ body) (hrest : IsLineEnd rest) (loc : Loc)
    (lineOpen : Bool) :
    ScansAlike Token.SameSpan lineOpen (scan loc lineOpen [] ('#' :: (body ++ rest)))
      (scan loc lineOpen [] rest) := by
  have hhash : '\n' ∉ '#' :: body := by simpa using hbody
  rw [scan_hash, firstLine_append hbody, afterFirstLine_append hbody, ← List.cons_append,
    scan_after_line hrest loc hhash List.not_mem_nil, List.nil_append]
  rcases hrest with rfl | ⟨rest, rfl⟩
  · rw [afterFirstLine, scan_nil, scan_nil]
    cases lineOpen with
    | false => exact .ok .nil
    | true => exact .ok (.newline rfl rfl rfl .nil)
  · rw [scan_feed]
    show ScansAlike _ _ ((scan (loc.after ['\n']) false [] rest).map _) _
    cases hscan : scan (loc.after ['\n']) false [] rest with
    | error d => exact .error d
    | ok us =>
      have hus := alike_of_scan hscan
      cases lineOpen with
      | false => exact .ok (.extra rfl hus)
      | true => exact .ok (.newline rfl rfl rfl hus)

/-- **A comment behind any text that has tokens.** -/
theorem scan_comment_alike (hbody : '\n' ∉ body) (hrest : IsLineEnd rest)
    (h : scan loc lineOpen [] cs = .ok ts) :
    ScansAlike Token.SameSpan lineOpen (scan loc lineOpen [] (cs ++ '#' :: (body ++ rest)))
      (scan loc lineOpen [] (cs ++ rest)) := by
  induction hlen : cs.length using Nat.strongRecOn generalizing loc lineOpen cs ts with
  | _ len ih =>
    cases cs with
    | nil => exact scansAlike_lineEnd hbody hrest loc lineOpen
    | cons c cs =>
      obtain ⟨piece, width, us, hcut, hus, rfl⟩ := exists_of_scan_cons h
      rw [List.length_cons] at hlen
      rw [List.cons_append, List.cons_append]
      cases cut_isPiece hcut with
      | blank hc =>
        have hblank (ds : List Char) : cut c (cs ++ ds) = .ok (.blank, 0) := by
          rw [cut, if_pos]
          refine hc.imp_right (Or.imp_right fun hreturn => ⟨hreturn.1, ?_⟩)
          rw [List.head?_append, hreturn.2]
          rfl
        exact .step [] (hblank _) (hblank _) (by simp [Piece.token?])
          (ih cs.length (by omega) hus rfl)
      | comment hc =>
        subst hc
        refine .comment rfl ?_
        by_cases hmem : '\n' ∈ cs
        · rw [firstLine_append_of_mem hmem, firstLine_append_of_mem hmem,
            afterFirstLine_append_of_mem hmem, afterFirstLine_append_of_mem hmem]
          rw [take_firstLine, drop_firstLine] at hus
          have hlt := length_afterFirstLine_lt (List.ne_nil_of_mem hmem)
          exact ih _ (by omega) hus rfl
        · -- the comment is still open, and what is added goes on with it
          have hmem' : '\n' ∉ cs ++ '#' :: body := by simp [hmem, hbody]
          rw [← List.cons_append, ← List.append_assoc, firstLine_append hmem, firstLine_append hmem',
            afterFirstLine_append hmem, afterFirstLine_append hmem', Loc.after_cons, Loc.after_cons,
            scan_after_line hrest _ hmem' hmem]
          exact .refl _ _ _
      | word w ds cs hw htext hend =>
        rw [List.append_assoc, List.append_assoc]
        rw [List.take_left, List.drop_left] at hus
        rw [List.length_append] at hlen
        exact .step ds (cut_word hw htext hend (by simp)) (cut_word hw htext hend hrest.head?)
          (fun _ _ => rfl) (ih cs.length (by omega) hus rfl)

end Lexer

theorem Token.Matches.span_eq {t u : Token} (h : t.Matches SameSpan u) : u.span = t.span := by
  rcases h with ⟨-, rfl⟩ | ⟨-, hspan⟩
  · rfl
  · exact hspan.symm

/-- **Comments are not seen.** Put a comment behind a text that has tokens, at the end of a line. It
makes no difference to the program, nor to the report of an error. -/
theorem Program.ofSource_comment (s body rest : String) (hs : (tokenize s).isOk)
    (hbody : '\n' ∉ body.toList) (hrest : IsLineEnd rest.toList) :
    (∃ p, Program.ofSource (s ++ "#" ++ body ++ rest) = .ok p ∧
        Program.ofSource (s ++ rest) = .ok p) ∨
      ∃ d d' : Diagnostic, Program.ofSource (s ++ "#" ++ body ++ rest) = .error (.diagnostic d) ∧
        Program.ofSource (s ++ rest) = .error (.diagnostic d') ∧ d.report = d'.report := by
  have htext : (s ++ "#" ++ body ++ rest).toList =
      s.toList ++ '#' :: (body.toList ++ rest.toList) := by
    simp
  obtain ⟨ts, hts⟩ : ∃ ts, tokenize s = .ok ts := by
    cases htokens : tokenize s with
    | error d =>
      rw [htokens] at hs
      cases hs
    | ok ts => exact ⟨ts, rfl⟩
  have halike : ScansAlike Token.SameSpan false (tokenize (s ++ "#" ++ body ++ rest))
      (tokenize (s ++ rest)) := by
    rw [tokenize, tokenize, htext, String.toList_append]
    exact scan_comment_alike hbody hrest hts
  rcases Program.ofSource_alike halike with hok | ⟨d, d', hd, hd', hsame⟩
  · exact .inl hok
  · refine .inr ⟨d, d', hd, hd', ?_⟩
    rcases hsame with ⟨-, rfl⟩ | ⟨t, u, -, hmatches, hspan, hreport⟩
    · rfl
    · rw [hreport, hmatches.span_eq, ← hspan]
      rfl

/-- The comment stands on a line of its own, which is blank without it, and the error comes later. -/
theorem Program.ofSource_comment_blankLine :
    let s := "x = 1\n "
    let body := " print(\"\r"
    let rest := "\nprint(x\n"
    (tokenize s).isOk ∧ '\n' ∉ body.toList ∧ IsLineEnd rest.toList ∧
      ∃ d d' : Diagnostic, Program.ofSource (s ++ "#" ++ body ++ rest) = .error (.diagnostic d) ∧
        Program.ofSource (s ++ rest) = .error (.diagnostic d') ∧ d.report = d'.report := by
  intro s body rest
  have hs : (tokenize s).isOk := by decide +kernel
  have hbody : '\n' ∉ body.toList := by decide
  have hrest : IsLineEnd rest.toList := .inr ⟨"print(x\n".toList, by decide⟩
  have hrefused : (Program.ofSource (s ++ rest)).isOk = false := by decide +kernel
  refine ⟨hs, hbody, hrest, ?_⟩
  rcases Program.ofSource_comment s body rest hs hbody hrest with ⟨p, -, hok⟩ | herror
  · rw [hok] at hrefused
    cases hrefused
  · exact herror

/-! ## Carriage returns -/

/-- The text with a carriage return before every line feed. -/
def Text.withReturns : List Char → List Char
  | [] => []
  | c :: cs => if c = '\n' then '\r' :: '\n' :: withReturns cs else c :: withReturns cs

/-- A newline token that was read from a line feed. -/
def Token.isLineFeed (t : Token) : Bool := t.kind = .newline && t.lexeme = "\n"

/-- The span `n` columns to the right. -/
def Span.right (s : Span) (n : Nat) : Span := ⟨s.start.right n, s.stop.right n⟩

/-- The token as it is found with carriage returns before the line feeds. -/
def Token.behindReturn (t : Token) : Token :=
  if t.isLineFeed then { t with span := t.span.right 1 } else t

/-- The second token is the first one, with carriage returns before the line feeds. -/
def Token.IsMoved (t u : Token) : Prop := u = t.behindReturn

theorem Token.behindReturn_of_kind {t : Token} (h : t.kind ≠ .newline) : t.behindReturn = t := by
  simp [behindReturn, isLineFeed, h]

namespace Text

variable {p : Char → Bool} {cs ds : List Char}

theorem withReturns_append (hds : '\n' ∉ ds) : withReturns (ds ++ cs) = ds ++ withReturns cs := by
  induction ds with
  | nil => rfl
  | cons d ds ih =>
    rw [List.mem_cons, not_or] at hds
    rw [List.cons_append, withReturns, if_neg (Ne.symm hds.1), ih hds.2, List.cons_append]

theorem takeWhile_withReturns (hfeed : p '\n' = false) (hreturn : p '\r' = false) (cs : List Char) :
    (withReturns cs).takeWhile p = cs.takeWhile p := by
  induction cs with
  | nil => rfl
  | cons c cs ih =>
    by_cases hc : c = '\n'
    · simp [withReturns, hc, hfeed, hreturn]
    · simp [withReturns, hc, List.takeWhile_cons, ih]

theorem afterFirstLine_withReturns (cs : List Char) :
    afterFirstLine (withReturns cs) = withReturns (afterFirstLine cs) := by
  induction cs with
  | nil => rfl
  | cons c cs ih => by_cases hc : c = '\n' <;> simp [withReturns, afterFirstLine, hc, ih]

/-- The next line begins at the same place. -/
theorem after_firstLine_withReturns (loc : Loc) (cs : List Char) :
    loc.after (firstLine (withReturns cs)) = loc.after (firstLine cs) := by
  induction cs generalizing loc with
  | nil => rfl
  | cons c cs ih =>
    by_cases hc : c = '\n'
    · subst hc
      rfl
    · rw [withReturns, if_neg hc, firstLine, firstLine, if_neg hc, if_neg hc, Loc.after_cons,
        Loc.after_cons, ih]

end Text

namespace Lexer

/-- The carriage return is read as part of a string only if the string has no end. -/
theorem takeWhile_quoted_withReturns (cs : List Char) :
    let body (cs : List Char) := cs.takeWhile fun c => c ≠ '"' && c ≠ '\n'
    let behind (cs : List Char) := cs[(body cs).length]?
    body (withReturns cs) = body cs ∧ behind (withReturns cs) = behind cs ∨
      behind (withReturns cs) ≠ some '"' ∧ behind cs ≠ some '"' := by
  intro body behind
  induction cs with
  | nil => exact .inl ⟨rfl, rfl⟩
  | cons c cs ih =>
    by_cases hc : c = '\n'
    · subst hc
      exact .inr ⟨by simp [behind, body, withReturns], by simp [behind, body]⟩
    · rw [withReturns, if_neg hc]
      by_cases hquote : c = '"'
      · subst hquote
        exact .inl ⟨by simp [body], by simp [behind, body]⟩
      · have hbody (cs : List Char) : body (c :: cs) = c :: body cs := by simp [body, hc, hquote]
        have hbehind (cs : List Char) : behind (c :: cs) = behind cs := by simp [behind, hbody]
        rw [hbody, hbody, hbehind, hbehind, List.cons.injEq]
        simpa using ih

theorem cutString_withReturns (cs : List Char) : cutString (withReturns cs) = cutString cs := by
  unfold cutString
  dsimp only
  rcases takeWhile_quoted_withReturns cs with ⟨hbody, hbehind⟩ | ⟨hopen, hopen'⟩
  · dsimp only at hbody hbehind
    rw [hbehind, hbody]
  · rw [if_neg hopen, if_neg hopen']

/-- No piece but a blank or a comment takes notice of carriage returns. -/
theorem cut_withReturns {c : Char} (hc : c ≠ '\r') (hhash : c ≠ '#') (cs : List Char) :
    cut c (withReturns cs) = cut c cs := by
  have hdouble : (withReturns cs).head?.bind (double? c) = cs.head?.bind (double? c) := by
    cases cs with
    | nil => rfl
    | cons d cs =>
      by_cases hd : d = '\n'
      · simp [withReturns, hd, double?]
      · simp [withReturns, hd]
  have hnumber : cutNumber c (withReturns cs) = cutNumber c cs := by
    unfold cutNumber
    rw [takeWhile_withReturns rfl rfl]
  unfold cut
  rw [hdouble, hnumber, cutString_withReturns, takeWhile_withReturns (p := isNameChar) rfl rfl]
  simp only [hc, hhash, false_and, if_false]

/-- A carriage return before a line feed is passed over, and the line feed stands one column further
to the right. -/
theorem scan_returnFeed (loc : Loc) (lineOpen : Bool) (cs : List Char) :
    scan loc lineOpen [] ('\r' :: '\n' :: cs) =
      (scan (loc.after ['\n']) false [] cs).map ((lineFeed loc).behindReturn :: ·) := by
  have hcut : cut '\r' ('\n' :: cs) = .ok (.blank, 0) := rfl
  rw [scan_cons loc lineOpen hcut]
  show (scan (loc.right 1) lineOpen [] ('\n' :: cs)).map ([] ++ ·) = _
  rw [scan_feed]
  show ((scan (loc.after ['\n']) false [] cs).map _).map ([] ++ ·) = _
  cases scan (loc.after ['\n']) false [] cs <;> rfl

theorem ScansAlike.returnFeed (h : ScansAlike Token.IsMoved false
      (scan (loc.after ['\n']) false [] cs) (scan (loc.after ['\n']) false [] cs')) :
    ScansAlike Token.IsMoved lineOpen (scan loc lineOpen [] ('\n' :: cs))
      (scan loc lineOpen [] ('\r' :: '\n' :: cs')) := by
  rw [scan_feed, scan_returnFeed]
  generalize scan (loc.after ['\n']) false [] cs = x, scan (loc.after ['\n']) false [] cs' = y at h
  cases h with
  | error d => exact .error d
  | ok h => exact .ok (.newline rfl rfl rfl h)

/-- **Carriage returns before all line feeds.** -/
theorem scan_withReturns_alike (hcs : '\r' ∉ cs) :
    ScansAlike Token.IsMoved lineOpen (scan loc lineOpen [] cs)
      (scan loc lineOpen [] (withReturns cs)) := by
  induction hlen : cs.length using Nat.strongRecOn generalizing loc lineOpen cs with
  | _ len ih =>
    cases cs with
    | nil =>
      rw [withReturns, scan_nil]
      cases lineOpen with
      | false => exact .ok .nil
      | true => exact .ok (.newline rfl rfl rfl .nil)
    | cons c cs =>
      rw [List.length_cons] at hlen
      rw [List.mem_cons, not_or] at hcs
      by_cases hfeed : c = '\n'
      · subst hfeed
        rw [withReturns, if_pos rfl]
        exact .returnFeed (ih cs.length (by omega) hcs.2 rfl)
      rw [withReturns, if_neg hfeed]
      -- a comment takes up more text than before, any other piece is the same
      by_cases hhash : c = '#'
      · subst hhash
        refine .comment rfl ?_
        have hsuffix : afterFirstLine cs <:+ cs := ⟨firstLine cs, firstLine_append_afterFirstLine cs⟩
        have hle := hsuffix.length_le
        rw [Loc.after_cons, Loc.after_cons, after_firstLine_withReturns, afterFirstLine_withReturns]
        exact ih _ (by omega) (fun hmem => hcs.2 (hsuffix.subset hmem)) rfl
      have hcut' := cut_withReturns (Ne.symm hcs.1) hhash cs
      cases hcut : cut c cs with
      | error blame =>
        rw [scan, scan, hcut', hcut]
        exact .error _
      | ok found =>
        obtain ⟨piece, width⟩ := found
        rw [hcut] at hcut'
        cases cut_isCut hcut with
        | newline hc => exact absurd hc hfeed
        | comment hc =>
          cases cut_isPiece hcut with
          | comment hc => exact absurd hc hhash
        | blank hc =>
          exact .step [] hcut hcut' (by simp [Piece.token?]) (ih cs.length (by omega) hcs.2 rfl)
        | @token ds cs kind lexeme value hc hds hkind =>
          rw [withReturns_append hds] at hcut' ⊢
          rw [List.length_append] at hlen
          rw [List.mem_append, not_or] at hcs
          refine .step ds hcut hcut' ?_ (ih cs.length (by omega) hcs.2.2 rfl)
          rintro t ⟨⟩
          exact (Token.behindReturn_of_kind hkind).symm

end Lexer

theorem Token.Matches.eq_behindReturn {t u : Token} (h : t.Matches IsMoved u) :
    u = t.behindReturn := by
  rcases h with ⟨hkind, rfl⟩ | ⟨-, h⟩
  · exact (behindReturn_of_kind hkind).symm
  · exact h

/-- **Carriage returns before line feeds are not seen.** They make no difference to the program. An
error is told in the same words and of the same span, unless the text is refused at the newline that
was read from a line feed: then the span is one column further to the right, as the line feed is. -/
theorem Program.ofSource_withReturns (s : String) (hs : '\r' ∉ s.toList) :
    (∃ p, Program.ofSource s = .ok p ∧
        Program.ofSource (String.ofList (withReturns s.toList)) = .ok p) ∨
      ∃ d d' : Diagnostic, Program.ofSource s = .error (.diagnostic d) ∧
        Program.ofSource (String.ofList (withReturns s.toList)) = .error (.diagnostic d') ∧
        (∀ t ∈ Program.refusedToken? s, d.span = t.span) ∧
        d'.report = { d.report with
          span := if (Program.refusedToken? s).any Token.isLineFeed then d.span.right 1
            else d.span } := by
  have halike : ScansAlike Token.IsMoved false (tokenize s)
      (tokenize (String.ofList (withReturns s.toList))) := by
    rw [tokenize, tokenize, String.toList_ofList]
    exact scan_withReturns_alike hs
  rcases Program.ofSource_alike halike with hok | ⟨d, d', hd, hd', hsame⟩
  · exact .inl hok
  · refine .inr ⟨d, d', hd, hd', ?_⟩
    rcases hsame with ⟨hnone, rfl⟩ | ⟨t, u, hsome, hmatches, hspan, hreport⟩
    · rw [hnone]
      exact ⟨by simp, rfl⟩
    · rw [hsome, hreport, hmatches.eq_behindReturn, hspan, Token.behindReturn, Option.any_some]
      refine ⟨fun _ h => by cases h; rfl, ?_⟩
      split <;> rfl

/-- An operand is missed where the first line ends, one column later with the carriage return. -/
theorem Program.ofSource_withReturns_unclosed :
    let s := "x = (1 +\n2)"
    '\r' ∉ s.toList ∧
      ∃ d d' : Diagnostic, Program.ofSource s = .error (.diagnostic d) ∧
        Program.ofSource (String.ofList (withReturns s.toList)) = .error (.diagnostic d') ∧
        d'.report = { d.report with span := d.span.right 1 } := by
  intro s
  have hs : '\r' ∉ s.toList := by decide
  have hrefused : (Program.ofSource s).isOk = false := by decide +kernel
  have hfeed : (Program.refusedToken? s).any Token.isLineFeed := by decide +kernel
  refine ⟨hs, ?_⟩
  rcases Program.ofSource_withReturns s hs with ⟨p, hok, -⟩ | ⟨d, d', hd, hd', -, hreport⟩
  · rw [hok] at hrefused
    cases hrefused
  · rw [if_pos hfeed] at hreport
    exact ⟨d, d', hd, hd', hreport⟩

end Reckon
