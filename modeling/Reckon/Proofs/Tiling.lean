import Reckon.Proofs.Pieces

/-!
# Tokens tile the text

Each token stands for a stretch of the text that it was cut from, and its span is where that stretch
stands. What lies between the stretches is blanks and comments, and a comment takes all that is left of
its line, with the line feed. The only tokens without a stretch are the newlines that close a line at
its comment or at the end of the text.

Places are counted by the scanner as it goes. Here they are given by `Loc.ofIndex`, which looks at a
text and an index and nothing else, so that spans can be compared with the text itself.

* `Tiled` is the run of the scanner over a text, with the indices it passes; `tiled_of_scan` finds it.
* `Tiling` says what holds of all tokens together. Each of its parts is an induction over the run, or
  follows from those that are.
-/

namespace Reckon

open Lexer

/-! ## Places by index -/

namespace Loc

variable {cs ds : List Char} {c : Char} {i j k : Nat}

/-- The place of the character with index `i`: its row counts the line feeds before it, its column the
characters since the last of these. -/
def ofIndex (cs : List Char) (i : Nat) : Loc :=
  ⟨1 + (cs.take i).count '\n', 1 + ((cs.take i).reverse.takeWhile (· ≠ '\n')).length⟩

theorem origin_after_reverse (ds : List Char) :
    origin.after ds.reverse =
      ⟨1 + ds.count '\n', 1 + (ds.takeWhile (· ≠ '\n')).length⟩ := by
  induction ds with
  | nil => rfl
  | cons c ds ih =>
    rw [List.reverse_cons, after_append, ih, after_cons, after_nil, next]
    by_cases hc : c = '\n'
    · simp [hc]
      omega
    · simp [hc]
      omega

/-- The scanner counts places as `ofIndex` does. -/
theorem ofIndex_eq_after (cs : List Char) (i : Nat) :
    ofIndex cs i = origin.after (cs.take i) := by
  have h := origin_after_reverse (cs.take i).reverse
  rw [List.reverse_reverse, List.count_reverse] at h
  exact h.symm

theorem ofIndex_append_length (cs ds : List Char) :
    ofIndex (cs ++ ds) cs.length = origin.after cs := by
  rw [ofIndex_eq_after, List.take_left]

theorem ofIndex_succ (h : cs[i]? = some c) : ofIndex cs (i + 1) = (ofIndex cs i).next c := by
  rw [ofIndex_eq_after, ofIndex_eq_after, List.take_add_one, h, after_append]
  rfl

theorem lt_next (l : Loc) (c : Char) : l < l.next c := by
  rw [lt_iff, next]
  split
  · exact .inl (by dsimp only; omega)
  · exact .inr ⟨rfl, by dsimp only; omega⟩

theorem lt_trans {a b c : Loc} (hab : a < b) (hbc : b < c) : a < c := by
  rw [lt_iff] at *
  omega

/-- Characters that come later stand later. -/
theorem ofIndex_lt (hij : i < j) (hj : j ≤ cs.length) : ofIndex cs i < ofIndex cs j := by
  induction j with
  | zero => omega
  | succ j ih =>
    have hget : cs[j]? = some (cs.get ⟨j, hj⟩) := List.getElem?_eq_getElem hj
    have hstep : ofIndex cs j < ofIndex cs (j + 1) := by
      rw [ofIndex_succ hget]
      exact lt_next _ _
    by_cases h : i = j
    · rwa [h]
    · exact lt_trans (ih (by omega) (by omega)) hstep

/-- Without a line feed between them, characters stand on one row. -/
theorem ofIndex_row_eq (hij : i ≤ j) (hj : j ≤ cs.length)
    (hline : ∀ k, i ≤ k → k < j → cs[k]? ≠ some '\n') :
    (ofIndex cs j).row = (ofIndex cs i).row := by
  induction j with
  | zero => rw [Nat.le_zero.1 hij]
  | succ j ih =>
    by_cases h : i = j + 1
    · rw [h]
    · have hget : cs[j]? = some (cs.get ⟨j, hj⟩) := List.getElem?_eq_getElem hj
      have hne : cs.get ⟨j, hj⟩ ≠ '\n' := by
        intro hc
        exact hline j (by omega) (by omega) (by rw [hget, hc])
      rw [ofIndex_succ hget, next, if_neg hne]
      exact ih (by omega) (by omega) fun k hik hkj => hline k hik (by omega)

/-- A line feed between them puts characters on different rows. -/
theorem ofIndex_row_lt (hik : i ≤ k) (hkj : k < j) (hfeed : cs[k]? = some '\n') :
    (ofIndex cs i).row < (ofIndex cs j).row := by
  have hbefore : (cs.take i).count '\n' ≤ (cs.take k).count '\n' :=
    (List.take_sublist_take_left hik).count_le '\n'
  have hafter : (cs.take (k + 1)).count '\n' ≤ (cs.take j).count '\n' :=
    (List.take_sublist_take_left hkj).count_le '\n'
  have hfeeds : (cs.take (k + 1)).count '\n' = (cs.take k).count '\n' + 1 := by
    rw [List.take_add_one, hfeed, List.count_append]
    rfl
  show (1 : Int) + (cs.take i).count '\n' < 1 + (cs.take j).count '\n'
  omega

/-- Along a text without line feeds, places move to the right. -/
theorem after_of_not_mem (l : Loc) (h : '\n' ∉ ds) : l.after ds = l.right ds.length := by
  induction ds generalizing l with
  | nil => simp [right]
  | cons d ds ih =>
    rw [List.mem_cons, not_or] at h
    rw [after_cons, next, if_neg (Ne.symm h.1), ih _ h.2]
    simp only [right, List.length_cons, Loc.mk.injEq, true_and]
    omega

end Loc

/-! ## Tiles -/

/-- A token with the indices of the text that it stands for, from `first` up to `stop`, the latter
not included. -/
structure Tile where
  token : Token
  first : Nat
  stop : Nat

variable {cs : List Char} {tiles : List Tile} {i k : Nat} {lineOpen : Bool}

/-- The character at `k` is in none of the tiles. -/
def Uncovered (tiles : List Tile) (k : Nat) : Prop := ∀ t ∈ tiles, k < t.first ∨ t.stop ≤ k

/-- The character at `k` only separates: a carriage return does so before a line feed. -/
def BlankAt (cs : List Char) (k : Nat) : Prop :=
  cs[k]? = some ' ' ∨ cs[k]? = some '\t' ∨ (cs[k]? = some '\r' ∧ cs[k + 1]? = some '\n')

/-- The characters from `a` up to `b` are a comment: a `#`, what follows it on its line, and the line
feed that ends the line, unless the text ends before. -/
structure IsComment (cs : List Char) (a b : Nat) : Prop where
  hash : cs[a]? = some '#'
  lt : a < b
  le_length : b ≤ cs.length
  /-- Before its last character there is no line feed in it. -/
  line : ∀ k, a ≤ k → k + 1 < b → cs[k]? ≠ some '\n'
  /-- It does not end before its line does. -/
  ends : cs[b - 1]? = some '\n' ∨ b = cs.length

/-- There is a comment from `a` up to `b`, and no tile has any of it. -/
def OmitsComment (cs : List Char) (tiles : List Tile) (a b : Nat) : Prop :=
  IsComment cs a b ∧ ∀ k, a ≤ k → k < b → Uncovered tiles k

/-- The character at `k` is in a comment, all of which the tiles leave out. -/
def InComment (cs : List Char) (tiles : List Tile) (k : Nat) : Prop :=
  ∃ a b, OmitsComment cs tiles a b ∧ a ≤ k ∧ k < b

/-- How a tile belongs to the text. -/
inductive Placed (cs : List Char) (tiles : List Tile) : (t : Tile) → Prop
  /-- The tile is the text of a word, its token carries what the word does, and the span of the token
  goes from the first character of the tile to the last. -/
  | word {t : Token} {a b : Nat} (w : Word) (hw : w.isSpelled) (hb : b = a + w.text.length)
      (htext : cs.extract a b = w.text) (hpayload : t.payload = w.payload)
      (hspan : t.span = ⟨.ofIndex cs a, .ofIndex cs (b - 1)⟩) : Placed cs tiles ⟨t, a, b⟩
  /-- The tile is empty and closes a line. Only blanks are between it and a tile `u` of that line, and
  behind it the line ends in a comment, or the text ends. -/
  | lineEnd {a : Nat} {u : Tile} (hu : u ∈ tiles) (hkind : u.token.kind ≠ .newline)
      (hle : u.stop ≤ a) (hgap : ∀ k, u.stop ≤ k → k < a → BlankAt cs k)
      (ha : a = cs.length ∨ ∃ b, OmitsComment cs tiles a b) :
      Placed cs tiles ⟨lineEnd (.ofIndex cs a), a, a⟩

/-- The tiles cover a text up to blanks and comments, in the order of the text. -/
structure Tiling (cs : List Char) (tiles : List Tile) : Prop where
  placed : ∀ t ∈ tiles, Placed cs tiles t
  increasing : tiles.Pairwise fun t u => t.first < u.first ∧ t.stop ≤ u.first
  skipped : ∀ k < cs.length, Uncovered tiles k → BlankAt cs k ∨ InComment cs tiles k
  /-- No token goes beyond its row. -/
  oneRow : ∀ t ∈ tiles, t.token.span.start.row = t.token.span.stop.row
  /-- Every token ends before the next ones begin. -/
  apart : tiles.Pairwise fun t u => t.token.span.stop < u.token.span.start
  /-- Lines are closed before the next one begins. -/
  lines : ∀ t u, [t, u] <:+: tiles → t.token.kind ≠ .newline →
    t.token.span.stop.row = u.token.span.start.row
  /-- After a newline there is nothing more on its row. -/
  rows : tiles.Pairwise fun t u => t.token.kind = .newline →
    t.token.span.stop.row < u.token.span.start.row
  closed : ∀ t ∈ tiles.getLast?, t.token.kind = .newline

/-! ## The run of the scanner -/

/-- The scanner runs from the index `i` to the end of the text and finds the tiles. There are tokens
on the line already if `lineOpen` holds. -/
inductive Tiled (cs : List Char) : (i : Nat) → (lineOpen : Bool) → (tiles : List Tile) → Prop
  | done : Tiled cs cs.length false []
  | close : Tiled cs cs.length true [⟨lineEnd (.ofIndex cs cs.length), cs.length, cs.length⟩]
  | blank {i : Nat} {lineOpen : Bool} {tiles : List Tile} (hc : BlankAt cs i)
      (h : Tiled cs (i + 1) lineOpen tiles) : Tiled cs i lineOpen tiles
  | comment {i j : Nat} {tiles : List Tile} (hc : IsComment cs i j) (h : Tiled cs j false tiles) :
      Tiled cs i false tiles
  /-- A comment closes the line, where there are tokens on it. -/
  | closingComment {i j : Nat} {tiles : List Tile} (hc : IsComment cs i j)
      (h : Tiled cs j false tiles) : Tiled cs i true (⟨lineEnd (.ofIndex cs i), i, i⟩ :: tiles)
  | word {i j : Nat} {lineOpen : Bool} {t : Token} {tiles : List Tile} (w : Word)
      (hw : w.isSpelled) (hj : j = i + w.text.length) (htext : cs.extract i j = w.text)
      (hpayload : t.payload = w.payload) (hspan : t.span = ⟨.ofIndex cs i, .ofIndex cs (j - 1)⟩)
      (h : Tiled cs j (decide (t.kind ≠ .newline)) tiles) :
      Tiled cs i lineOpen (⟨t, i, j⟩ :: tiles)

theorem Word.length_text_pos {w : Word} (hw : w.isSpelled) : 0 < w.text.length :=
  List.length_pos_iff.2 (Layout.text_ne_nil hw)

theorem getElem?_length_add {before rest : List Char} (n : Nat) :
    (before ++ rest)[before.length + n]? = rest[n]? := by
  rw [List.getElem?_append_right (Nat.le_add_right _ _), Nat.add_sub_cancel_left]

/-- Behind what was taken stands the character that ended the taking. -/
theorem getElem?_length_takeWhile (p : Char → Bool) (cs : List Char) :
    cs[(cs.takeWhile p).length]? = (cs.dropWhile p).head? := by
  induction cs with
  | nil => rfl
  | cons c cs ih => by_cases hc : p c <;> simp [hc, ih]

/-- A comment is cut off whole: up to the first line feed behind its mark, and with that. -/
theorem Lexer.isComment_cut (before rest : List Char) {c : Char} (hc : c = '#') :
    IsComment (before ++ c :: rest) before.length
      (before ++ c :: rest.take ((rest.takeWhile (· ≠ '\n')).length + 1)).length := by
  have hsplit := List.takeWhile_append_dropWhile (p := (· ≠ '\n')) (l := rest)
  have hlength := congrArg List.length hsplit
  rw [List.length_append] at hlength
  simp only [List.length_append, List.length_cons, List.length_take]
  constructor
  case hash =>
    rw [← Nat.add_zero before.length, getElem?_length_add, hc]
    rfl
  case lt => omega
  case le_length =>
    rw [List.length_append, List.length_cons]
    omega
  case line =>
    intro k hk hlt
    obtain ⟨n, rfl⟩ := Nat.exists_eq_add_of_le hk
    rw [getElem?_length_add]
    cases n with
    | zero => simp [hc]
    | succ n =>
      intro hget
      rw [List.getElem?_cons_succ, ← hsplit, List.getElem?_append_left (by omega)] at hget
      simpa using List.all_eq_true.1 List.all_takeWhile _ (List.mem_of_getElem? hget)
  case ends =>
    cases htail : rest.dropWhile (· ≠ '\n') with
    | nil =>
      right
      rw [htail, List.length_nil] at hlength
      rw [List.length_append, List.length_cons]
      omega
    | cons d tail =>
      left
      rw [htail, List.length_cons] at hlength
      have hhead : (rest.dropWhile (· ≠ '\n')).head? = some d := by
        rw [htail]
        rfl
      have hd : d = '\n' := by simpa using head?_dropWhile_eq_false d hhead
      have hlast : before.length + (min ((rest.takeWhile (· ≠ '\n')).length + 1) rest.length + 1) - 1 =
          before.length + ((rest.takeWhile (· ≠ '\n')).length + 1) := by omega
      rw [hlast, getElem?_length_add, List.getElem?_cons_succ, getElem?_length_takeWhile, hhead, hd]

/-- The tile of a word that stands after `before`. -/
theorem Tiled.word_append {before rest : List Char} {w : Word} {t : Token} (hw : w.isSpelled)
    (hpayload : t.payload = w.payload)
    (hspan : t.span =
      ⟨.after .origin before, (Loc.origin.after before).right (w.text.length - 1)⟩)
    (h : Tiled (before ++ (w.text ++ rest)) (before ++ w.text).length
      (decide (t.kind ≠ .newline)) tiles) :
    Tiled (before ++ (w.text ++ rest)) before.length lineOpen
      (⟨t, before.length, (before ++ w.text).length⟩ :: tiles) := by
  have hlength := Word.length_text_pos hw
  have hstart : Loc.ofIndex (before ++ (w.text ++ rest)) before.length = .after .origin before :=
    Loc.ofIndex_append_length _ _
  have hstop : Loc.ofIndex (before ++ (w.text ++ rest)) ((before ++ w.text).length - 1) =
      (Loc.origin.after before).right (w.text.length - 1) := by
    have htake : (before ++ (w.text ++ rest)).take ((before ++ w.text).length - 1) =
        before ++ w.text.dropLast := by
      rw [List.length_append, Nat.add_sub_assoc hlength, List.take_length_add_append,
        List.take_append_of_le_length (by omega), List.dropLast_eq_take]
    rw [Loc.ofIndex_eq_after, htake, Loc.after_append,
      Loc.after_of_not_mem _ (Word.newline_not_mem_dropLast hw), List.length_dropLast]
  refine .word w hw List.length_append ?_ hpayload (by rw [hspan, hstart, hstop]) h
  rw [List.extract_eq_take_drop, List.drop_left, List.length_append, Nat.add_sub_cancel_left,
    List.take_left]

/-- **The scanner's run.** The text read before decides the places of what comes. -/
theorem tiled_of_scan (before : List Char) {rest : List Char} {ts : List Token}
    (h : scan (Loc.origin.after before) lineOpen [] rest = .ok ts) :
    ∃ tiles, tiles.map Tile.token = ts ∧ Tiled (before ++ rest) before.length lineOpen tiles := by
  induction hn : rest.length using Nat.strongRecOn generalizing before rest lineOpen ts with
  | _ n ih =>
    cases rest with
    | nil =>
      rw [scan_nil] at h
      cases h
      have hloc := Loc.ofIndex_append_length before []
      rw [List.append_nil] at hloc ⊢
      cases lineOpen with
      | false => exact ⟨[], rfl, .done⟩
      | true => exact ⟨_, by rw [← hloc]; rfl, .close⟩
    | cons c rest =>
      obtain ⟨piece, width, us, hcut, hus, rfl⟩ := exists_of_scan_cons h
      -- for the pieces after the first, the first has been read as well
      have hlt : (rest.drop width).length < n := by
        rw [← hn, List.length_drop, List.length_cons]
        omega
      rw [← Loc.after_append] at hus
      obtain ⟨tiles, rfl, htiles⟩ := ih _ hlt _ hus rfl
      rw [List.append_assoc, List.cons_append, List.take_append_drop] at htiles
      have hget (k : Nat) : (before ++ c :: rest)[before.length + k]? = (c :: rest)[k]? :=
        getElem?_length_add k
      have hloc := Loc.ofIndex_append_length before (c :: rest)
      cases cut_isPiece hcut with
      | blank hc =>
        rw [List.length_append] at htiles
        refine ⟨tiles, rfl, .blank ?_ htiles⟩
        rw [BlankAt, hget 1, ← Nat.add_zero before.length, hget 0]
        simpa [List.head?_eq_getElem?] using hc
      | comment hc =>
        have hcomment := isComment_cut before rest hc
        cases lineOpen with
        | false => exact ⟨tiles, rfl, .comment hcomment htiles⟩
        | true => exact ⟨_, by rw [← hloc]; rfl, .closingComment hcomment htiles⟩
      | word w ds cs hw htext hend =>
        rw [List.take_left, ← List.cons_append, ← htext] at htiles
        rw [← List.cons_append, ← htext]
        let t : Token := ⟨w.payload.1, w.payload.2.1,
          ⟨.after .origin before, (Loc.origin.after before).right ds.length⟩, w.payload.2.2⟩
        refine ⟨_, rfl, Tiled.word_append (t := t) hw rfl ?_ htiles⟩
        rw [htext, List.length_cons, Nat.add_sub_cancel]

/-! ## What the run says of the tiles -/

namespace Tiled

/-- Tiles are found ahead of where the scanner stands. -/
theorem le_first (h : Tiled cs i lineOpen tiles) : ∀ t ∈ tiles, i ≤ t.first := by
  induction h with
  | done => simp
  | close => simp
  | blank hc h ih =>
    intro t ht
    have := ih t ht
    omega
  | comment hc h ih => exact fun t ht => Nat.le_trans (Nat.le_of_lt hc.lt) (ih t ht)
  | closingComment hc h ih =>
    rintro t (_ | ⟨_, ht⟩)
    · exact Nat.le_refl _
    · exact Nat.le_trans (Nat.le_of_lt hc.lt) (ih t ht)
  | word w hw hj htext hpayload hspan h ih =>
    rintro t (_ | ⟨_, ht⟩)
    · exact Nat.le_refl _
    · have := ih t ht
      omega

theorem increasing (h : Tiled cs i lineOpen tiles) :
    tiles.Pairwise fun t u => t.first < u.first ∧ t.stop ≤ u.first := by
  induction h with
  | done => exact .nil
  | close => exact List.pairwise_singleton _ _
  | blank hc h ih => exact ih
  | comment hc h ih => exact ih
  | closingComment hc h ih =>
    refine .cons (fun u hu => ?_) ih
    have := h.le_first u hu
    have := hc.lt
    dsimp only
    omega
  | word w hw hj htext hpayload hspan h ih =>
    have hpos := Word.length_text_pos hw
    refine .cons (fun u hu => ?_) ih
    have := h.le_first u hu
    dsimp only
    omega

/-- Nothing is tiled between a place and the next one that the scanner goes on from, if all tiles found
so far end before. -/
theorem uncovered {prior : List Tile} {j : Nat} (hprior : ∀ t ∈ prior, t.stop ≤ i)
    (h : Tiled cs j lineOpen tiles) (hik : i ≤ k) (hkj : k < j) : Uncovered (prior ++ tiles) k := by
  intro t ht
  rcases List.mem_append.1 ht with ht | ht
  · exact .inr (Nat.le_trans (hprior t ht) hik)
  · exact .inl (Nat.lt_of_lt_of_le hkj (h.le_first t ht))

/-- A comment is left out whole, whatever the tiles found before. -/
theorem omitsComment {prior : List Tile} {j : Nat} (hprior : ∀ t ∈ prior, t.stop ≤ i)
    (hc : IsComment cs i j) (h : Tiled cs j lineOpen tiles) : OmitsComment cs (prior ++ tiles) i j :=
  ⟨hc, fun _ hik hkj => uncovered hprior h hik hkj⟩

theorem stop_le_concat {prior : List Tile} {j : Nat} (hprior : ∀ u ∈ prior, u.stop ≤ i)
    (hij : i ≤ j) (t : Tile) (ht : t.stop ≤ j) : ∀ u ∈ prior ++ [t], u.stop ≤ j := by
  intro u hu
  rcases List.mem_append.1 hu with hu | hu
  · exact Nat.le_trans (hprior u hu) hij
  · rwa [List.mem_singleton.1 hu]

/-- What the tiles leave out is blanks and comments. Tiles found before are kept in `prior`, as a
comment has to be clear of these, too. -/
theorem skipped (h : Tiled cs i lineOpen tiles) (prior : List Tile)
    (hprior : ∀ t ∈ prior, t.stop ≤ i) (hik : i ≤ k) (hk : k < cs.length)
    (hout : Uncovered (prior ++ tiles) k) : BlankAt cs k ∨ InComment cs (prior ++ tiles) k := by
  induction h generalizing prior with
  | done => omega
  | close => omega
  | @blank i lineOpen tiles hc h ih =>
    by_cases hki : k = i
    · exact .inl (hki ▸ hc)
    · exact ih _ (fun t ht => Nat.le_succ_of_le (hprior t ht)) (by omega) hout
  | @comment i j tiles hc h ih =>
    by_cases hkj : k < j
    · exact .inr ⟨i, j, omitsComment hprior hc h, hik, hkj⟩
    · exact ih _ (fun t ht => Nat.le_trans (hprior t ht) (Nat.le_of_lt hc.lt)) (by omega) hout
  | @closingComment i j tiles hc h ih =>
    have hclosed := stop_le_concat hprior (Nat.le_refl i) ⟨lineEnd (.ofIndex cs i), i, i⟩
      (Nat.le_refl i)
    rw [List.append_cons] at hout ⊢
    by_cases hkj : k < j
    · exact .inr ⟨i, j, omitsComment hclosed hc h, hik, hkj⟩
    · exact ih _ (fun t ht => Nat.le_trans (hclosed t ht) (Nat.le_of_lt hc.lt)) (by omega) hout
  | @word i j lineOpen t tiles w hw hj htext hpayload hspan h ih =>
    have hkj : j ≤ k := by
      have hmem : (⟨t, i, j⟩ : Tile) ∈ prior ++ ⟨t, i, j⟩ :: tiles := by simp
      rcases hout _ hmem with hlt | hle
      · exact absurd hik (Nat.not_le.2 hlt)
      · exact hle
    rw [List.append_cons] at hout ⊢
    exact ih _ (stop_le_concat hprior (by omega) ⟨t, i, j⟩ (Nat.le_refl j)) hkj hout

/-- A line is open at `i`: a tile of it has been found, and only blanks came after that. -/
def OpenAt (cs : List Char) (prior : List Tile) (i : Nat) : Prop :=
  ∃ u ∈ prior, u.token.kind ≠ .newline ∧ u.stop ≤ i ∧ ∀ k, u.stop ≤ k → k < i → BlankAt cs k

theorem OpenAt.succ {prior : List Tile} (h : OpenAt cs prior i) (hc : BlankAt cs i) :
    OpenAt cs prior (i + 1) := by
  obtain ⟨u, hu, hkind, hle, hgap⟩ := h
  refine ⟨u, hu, hkind, Nat.le_succ_of_le hle, fun k huk hki => ?_⟩
  by_cases hk : k = i
  · exact hk ▸ hc
  · exact hgap k huk (by omega)

/-- Where a line is open, it can be closed. -/
theorem OpenAt.placed {prior : List Tile} (h : OpenAt cs prior i) {tiles : List Tile}
    (hsub : prior ⊆ tiles) (hi : i = cs.length ∨ ∃ j, OmitsComment cs tiles i j) :
    Placed cs tiles ⟨lineEnd (.ofIndex cs i), i, i⟩ := by
  obtain ⟨u, hu, hkind, hle, hgap⟩ := h
  exact .lineEnd (hsub hu) hkind hle hgap hi

theorem placed (h : Tiled cs i lineOpen tiles) (prior : List Tile)
    (hprior : ∀ t ∈ prior, t.stop ≤ i) (hopen : lineOpen = true → OpenAt cs prior i) :
    ∀ t ∈ tiles, Placed cs (prior ++ tiles) t := by
  induction h generalizing prior with
  | done => simp
  | close =>
    intro t ht
    rw [List.mem_singleton.1 ht]
    exact (hopen rfl).placed (List.subset_append_left _ _) (.inl rfl)
  | blank hc h ih =>
    exact ih _ (fun t ht => Nat.le_succ_of_le (hprior t ht)) fun hline => (hopen hline).succ hc
  | comment hc h ih =>
    exact ih _ (fun t ht => Nat.le_trans (hprior t ht) (Nat.le_of_lt hc.lt)) nofun
  | @closingComment i j tiles hc h ih =>
    have hclosed := stop_le_concat hprior (Nat.le_refl i) ⟨lineEnd (.ofIndex cs i), i, i⟩
      (Nat.le_refl i)
    have hrest := ih _ (fun t ht => Nat.le_trans (hclosed t ht) (Nat.le_of_lt hc.lt)) nofun
    have hout := omitsComment hclosed hc h
    rw [← List.append_cons] at hrest hout
    rintro t (_ | ⟨_, ht⟩)
    · exact (hopen rfl).placed (List.subset_append_left _ _) (.inr ⟨j, hout⟩)
    · exact hrest t ht
  | @word i j lineOpen t tiles w hw hj htext hpayload hspan h ih =>
    have hrest := ih _ (stop_le_concat hprior (by omega) ⟨t, i, j⟩ (Nat.le_refl j)) fun hkind =>
      ⟨⟨t, i, j⟩, by simp, of_decide_eq_true hkind, Nat.le_refl j, by dsimp only; omega⟩
    rw [← List.append_cons] at hrest
    rintro u (_ | ⟨_, hu⟩)
    · exact .word w hw hj htext hpayload hspan
    · exact hrest u hu

/-- On an open line there is still a token to come. -/
theorem exists_head (h : Tiled cs i lineOpen tiles) (hopen : lineOpen = true) :
    ∃ t us, tiles = t :: us ∧ t.token.span.start.row = (Loc.ofIndex cs i).row := by
  induction h with
  | done => cases hopen
  | comment hc h ih => cases hopen
  | close => exact ⟨_, _, rfl, rfl⟩
  | closingComment hc h ih => exact ⟨_, _, rfl, rfl⟩
  | word w hw hj htext hpayload hspan h ih => exact ⟨_, _, rfl, by rw [hspan]⟩
  | blank hc h ih =>
    obtain ⟨t, us, htiles, hrow⟩ := ih hopen
    refine ⟨t, us, htiles, hrow.trans ?_⟩
    rcases hc with hc | hc | ⟨hc, -⟩ <;> rw [Loc.ofIndex_succ hc] <;> rfl

theorem getLast?_kind (h : Tiled cs i lineOpen tiles) :
    ∀ t ∈ tiles.getLast?, t.token.kind = .newline := by
  have hlast {t : Tile} {tiles : List Tile}
      (ih : ∀ u ∈ tiles.getLast?, u.token.kind = .newline)
      (ht : tiles = [] → t.token.kind = .newline) :
      ∀ u ∈ (t :: tiles).getLast?, u.token.kind = .newline := by
    cases tiles with
    | nil => simpa using ht rfl
    | cons v tiles => rwa [List.getLast?_cons_cons]
  induction h with
  | done => simp
  | close => simp [lineEnd]
  | blank hc h ih => exact ih
  | comment hc h ih => exact ih
  | closingComment hc h ih => exact hlast ih fun _ => rfl
  | word w hw hj htext hpayload hspan h ih =>
    refine hlast ih fun hnil => ?_
    -- no tile follows, so the line is closed
    refine Classical.byContradiction fun hkind => ?_
    obtain ⟨u, us, htiles, -⟩ := h.exists_head (decide_eq_true hkind)
    rw [hnil] at htiles
    cases htiles

end Tiled

/-! ## Rows -/

/-- A character of a tile is one of its word. -/
theorem getElem?_of_extract {a b : Nat} {w : Word} (hb : b = a + w.text.length)
    (htext : cs.extract a b = w.text) {n : Nat} (hn : n < w.text.length) :
    cs[a + n]? = w.text[n]? := by
  rw [← htext, List.extract_eq_take_drop, List.getElem?_take_of_lt (by omega),
    List.getElem?_drop]

theorem stop_le_length {a b : Nat} {w : Word} (hw : w.isSpelled) (hb : b = a + w.text.length)
    (htext : cs.extract a b = w.text) : b ≤ cs.length := by
  have hpos := Word.length_text_pos hw
  have hlength := congrArg List.length htext
  rw [List.extract_eq_take_drop, List.length_take, List.length_drop] at hlength
  omega

namespace Placed

variable {t : Tile}

theorem first_le_length (h : Placed cs tiles t) : t.first ≤ cs.length := by
  cases h with
  | word w hw hb htext hpayload hspan =>
    have := stop_le_length hw hb htext
    dsimp only
    omega
  | lineEnd hu hkind hle hgap ha =>
    rcases ha with rfl | ⟨b, ha, -⟩
    · exact Nat.le_refl _
    · exact Nat.le_of_lt (Nat.lt_of_lt_of_le ha.lt ha.le_length)

theorem span_start (h : Placed cs tiles t) : t.token.span.start = .ofIndex cs t.first := by
  cases h with
  | word w hw hb htext hpayload hspan => rw [hspan]
  | lineEnd hu hkind hle hgap ha => rfl

/-- The last character of a token is in its tile, unless the tile is empty. -/
theorem exists_span_stop (h : Placed cs tiles t) :
    ∃ j, t.token.span.stop = .ofIndex cs j ∧ (j = t.first ∨ j < t.stop) := by
  cases h with
  | @word t a b w hw hb htext hpayload hspan =>
    have hpos := Word.length_text_pos hw
    exact ⟨b - 1, by rw [hspan], .inr (by dsimp only; omega)⟩
  | @lineEnd a u hu hkind hle hgap ha => exact ⟨a, rfl, .inl rfl⟩

theorem oneRow (h : Placed cs tiles t) : t.token.span.start.row = t.token.span.stop.row := by
  cases h with
  | @word t a b w hw hb htext hpayload hspan =>
    have hpos := Word.length_text_pos hw
    have hle := stop_le_length hw hb htext
    rw [hspan]
    refine (Loc.ofIndex_row_eq (by omega) (by omega) fun k hak hkb hget => ?_).symm
    obtain ⟨n, rfl⟩ := Nat.exists_eq_add_of_le hak
    rw [getElem?_of_extract hb htext (by omega)] at hget
    -- only the last character of a word can be a line feed
    refine Word.newline_not_mem_dropLast hw (List.mem_of_getElem? (i := n) ?_)
    rwa [List.getElem?_dropLast, if_pos (by omega)]
  | lineEnd hu hkind hle hgap ha => rfl

/-- Of two tiles in the order of the text, the first one's token ends before the other's begins. -/
theorem span_stop_lt {u : Tile} (ht : Placed cs tiles t) (hu : Placed cs tiles u)
    (hfirst : t.first < u.first) (hstop : t.stop ≤ u.first) :
    t.token.span.stop < u.token.span.start := by
  obtain ⟨j, hj, hjt⟩ := ht.exists_span_stop
  rw [hj, hu.span_start]
  exact Loc.ofIndex_lt (by omega) hu.first_le_length

end Placed

namespace Tiled

theorem lines (h : Tiled cs i lineOpen tiles) (t u : Tile) (hpair : [t, u] <:+: tiles)
    (hkind : t.token.kind ≠ .newline) :
    t.token.span.stop.row = u.token.span.start.row := by
  induction h with
  | done => simp at hpair
  | close => exact absurd hpair.length_le (by simp)
  | blank hc h ih => exact ih hpair
  | comment hc h ih => exact ih hpair
  | closingComment hc h ih =>
    rcases List.infix_cons_iff.1 hpair with hhead | hpair
    · obtain ⟨rfl, -⟩ := List.cons_prefix_cons.1 hhead
      exact absurd rfl hkind
    · exact ih hpair
  | @word i j lineOpen v tiles w hw hj htext hpayload hspan h ih =>
    rcases List.infix_cons_iff.1 hpair with hhead | hpair
    · obtain ⟨rfl, hrest⟩ := List.cons_prefix_cons.1 hhead
      obtain ⟨t, us, rfl, hrow⟩ := h.exists_head (decide_eq_true hkind)
      obtain ⟨rfl, -⟩ := List.cons_prefix_cons.1 hrest
      have hpos := Word.length_text_pos hw
      have hle := stop_le_length hw hj htext
      have hne : w ≠ .newline := by
        rintro rfl
        exact hkind (congrArg Prod.fst hpayload)
      rw [hrow, hspan]
      -- the line goes on behind the word, as there is no line feed in it
      refine (Loc.ofIndex_row_eq (by omega) hle fun k hk hkj hget => ?_).symm
      obtain ⟨n, rfl⟩ := Nat.exists_eq_add_of_le (show i ≤ k by omega)
      rw [getElem?_of_extract hj htext (by omega)] at hget
      exact Word.newline_not_mem_text hw hne (List.mem_of_getElem? hget)
    · exact ih hpair

/-- At the end of the text nothing more is found, if no line is to be closed. -/
theorem eq_nil (h : Tiled cs i false tiles) (hi : cs.length ≤ i) : tiles = [] := by
  generalize hopen : false = lineOpen at h
  cases h with
  | done => rfl
  | close => cases hopen
  | blank hc =>
    have hget : cs[i]? = none := List.getElem?_eq_none hi
    simp [BlankAt, hget] at hc
  | comment hc => exact absurd (Nat.lt_of_lt_of_le hc.lt hc.le_length) (Nat.not_lt.2 hi)
  | closingComment => cases hopen
  | word w hw hj htext =>
    have hpos := Word.length_text_pos hw
    have hle := stop_le_length hw hj htext
    omega

/-- A line feed follows every newline, before the next tile: it is the newline itself, or it ends the
comment. -/
theorem exists_feed (h : Tiled cs i lineOpen tiles) :
    tiles.Pairwise fun t u => t.token.kind = .newline →
      ∃ k, t.first ≤ k ∧ k < u.first ∧ cs[k]? = some '\n' := by
  induction h with
  | done => exact .nil
  | close => exact List.pairwise_singleton _ _
  | blank hc h ih => exact ih
  | comment hc h ih => exact ih
  | @closingComment i j tiles hc h ih =>
    refine .cons (fun u hu _ => ?_) ih
    have hle := h.le_first u hu
    have hlt := hc.lt
    rcases hc.ends with hfeed | hend
    · exact ⟨j - 1, by dsimp only; omega, by omega, hfeed⟩
    · -- a comment that ends with the text leaves nothing to be found
      rw [h.eq_nil (Nat.le_of_eq hend.symm)] at hu
      cases hu
  | @word i j lineOpen t tiles w hw hj htext hpayload hspan h ih =>
    refine .cons (fun u hu hkind => ?_) ih
    obtain rfl : w = .newline := Word.payload_kind_eq_newline_iff.1 (hpayload ▸ hkind)
    have hlt : i < j := hj ▸ Nat.lt_succ_self i
    refine ⟨i, Nat.le_refl i, Nat.lt_of_lt_of_le hlt (h.le_first u hu), ?_⟩
    exact getElem?_of_extract hj htext (n := 0) Nat.one_pos

/-- A run over the whole text gives a tiling. -/
theorem tiling (h : Tiled cs 0 false tiles) : Tiling cs tiles := by
  have hplaced : ∀ t ∈ tiles, Placed cs tiles t := h.placed [] (by simp) nofun
  exact {
    placed := hplaced
    increasing := h.increasing
    skipped := fun k hk hout => h.skipped [] (by simp) (Nat.zero_le k) hk hout
    oneRow := fun t ht => (hplaced t ht).oneRow
    apart := h.increasing.imp_of_mem fun ht hu hlt =>
      (hplaced _ ht).span_stop_lt (hplaced _ hu) hlt.1 hlt.2
    lines := h.lines
    rows := h.exists_feed.imp_of_mem fun {t u} ht hu hfeed hkind => by
      obtain ⟨k, htk, hku, hget⟩ := hfeed hkind
      rw [← (hplaced t ht).oneRow, (hplaced t ht).span_start, (hplaced u hu).span_start]
      exact Loc.ofIndex_row_lt htk hku hget
    closed := h.getLast?_kind }

end Tiled

/-- **The tokens of a text tile it.** They stand in order for stretches of the text, with exact spans,
and all that is left out is blanks and comments, each comment up to the end of its line and with the
line feed there. The last token is a newline, and so is the last one of every line; such a newline has no
stretch if the line ends in a comment or with the text. -/
theorem exists_tiling_of_tokenize (source : String) (ts : List Token)
    (h : tokenize source = .ok ts) :
    ∃ tiles, tiles.map Tile.token = ts ∧ Tiling source.toList tiles := by
  obtain ⟨tiles, hts, htiles⟩ := tiled_of_scan [] h
  exact ⟨tiles, hts, htiles.tiling⟩

/-- A mark in a string begins no comment, nor does a mark in a comment. The first line is closed at its
comment, of which nothing is read, the second by its line feed and the last by the end of the text. -/
theorem exists_tiling_of_tokenize_threeLines :
    let source := "x += \"#\" # y = 1 # 2\n12 **y\r\n\tz"
    let ts : List Token :=
      [⟨.ident, "x", ⟨⟨1, 1⟩, ⟨1, 1⟩⟩, none⟩,
        ⟨.op, "+=", ⟨⟨1, 3⟩, ⟨1, 4⟩⟩, some (.op .addAssign)⟩,
        ⟨.string, "#", ⟨⟨1, 6⟩, ⟨1, 8⟩⟩, none⟩, lineEnd ⟨1, 10⟩,
        ⟨.number, "12", ⟨⟨2, 1⟩, ⟨2, 2⟩⟩, some (.int 12)⟩,
        ⟨.op, "**", ⟨⟨2, 4⟩, ⟨2, 5⟩⟩, some (.op .pow)⟩,
        ⟨.ident, "y", ⟨⟨2, 6⟩, ⟨2, 6⟩⟩, none⟩, ⟨.newline, "\n", ⟨⟨2, 8⟩, ⟨2, 8⟩⟩, none⟩,
        ⟨.ident, "z", ⟨⟨3, 2⟩, ⟨3, 2⟩⟩, none⟩, lineEnd ⟨3, 3⟩]
    tokenize source = .ok ts ∧
      ∃ tiles, tiles.map Tile.token = ts ∧ Tiling source.toList tiles := by
  intro source ts
  have hfound : (tokenize source).toOption = some ts := by decide +kernel
  have h : tokenize source = .ok ts := by
    cases htokens : tokenize source with
    | error e =>
      rw [htokens] at hfound
      cases hfound
    | ok us =>
      rw [htokens] at hfound
      rw [Option.some.inj hfound]
  exact ⟨h, exists_tiling_of_tokenize source ts h⟩

end Reckon
