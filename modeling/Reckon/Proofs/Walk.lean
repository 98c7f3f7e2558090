import Reckon.Proofs.Limit

/-!
# Readers that move a position

Steps on a stream move its position by one token, and some of them may not be made at the end of the
tokens. The readers of programs take tokens from a list instead, and what happens to the position is
found out afterwards. Their loops end after so many rounds, whether they are done or not.

A `Walk` reads the same grammar by steps on a stream and in no other way, and it has no answer unless
its loops are done. `Follows` compares the two. Everything is put together from `Follows.bind` and one
lemma for each kind of step, in which a step that may not be made at the end asks for a token to be left.
`follows_expression` is by induction on the number of tokens that are left: there are fewer of them for
the operand in parentheses, and for the one after an operator.
-/

namespace Reckon

/-! ## Positions and tokens that are left -/

namespace TokenStream

/-- The stream whose tokens are `all`, of which `ts` are left. -/
def cursor (all ts : List Token) : TokenStream := ⟨all, all.length - ts.length⟩

section Positions

variable {all ts : List Token} {t : Token} {s : TokenStream}

theorem suffix_of_cons (h : t :: ts <:+ all) : ts <:+ all := (List.suffix_cons t ts).trans h

theorem rest_cursor (h : ts <:+ all) : (cursor all ts).rest = ts :=
  (List.suffix_iff_eq_drop.1 h).symm

theorem cursor_rest (h : s.index ≤ s.tokens.length) : cursor s.tokens s.rest = s := by
  obtain ⟨tokens, index⟩ := s
  show TokenStream.mk tokens (tokens.length - (tokens.drop index).length) = ⟨tokens, index⟩
  rw [List.length_drop, Nat.sub_sub_self h]

theorem getElem?_cursor (h : ts <:+ all) (k : Nat) :
    all[(cursor all ts).index + k]? = ts[k]? := by
  rw [← List.getElem?_drop]
  exact congrArg (fun us : List Token => us[k]?) (rest_cursor h)

theorem current?_cursor (h : ts <:+ all) : (cursor all ts).current? = ts.head? := by
  rw [List.head?_eq_getElem?]
  exact getElem?_cursor h 0

theorem exhausted_cursor (h : ts <:+ all) : (cursor all ts).exhausted = ts.isEmpty := by
  have hle := h.length_le
  rw [Bool.eq_iff_iff, List.isEmpty_iff, ← List.length_eq_zero_iff, exhausted,
    decide_eq_true_eq]
  show all.length ≤ all.length - ts.length ↔ _
  omega

theorem next_cursor (h : t :: ts <:+ all) :
    { cursor all (t :: ts) with index := (cursor all (t :: ts)).index + 1 } = cursor all ts := by
  have hle := h.length_le
  show TokenStream.mk all (all.length - (ts.length + 1) + 1) = ⟨all, all.length - ts.length⟩
  rw [List.length_cons] at hle
  rw [TokenStream.mk.injEq]
  exact ⟨rfl, by omega⟩

/-- Looking ahead is never a fault. -/
theorem peek_natCast (s : TokenStream) (k : Nat) :
    s.peek k = .ok s.tokens[s.index + k]? := by
  unfold peek
  by_cases hend : s.tokens.length ≤ s.index + k
  · rw [if_pos (by omega), List.getElem?_eq_none hend]
  · rw [if_neg (by omega)]
    have hindex : (((s.index : Int) + k)).toNat = s.index + k := by omega
    unfold get
    rw [if_neg (by omega), if_neg (by omega), hindex, List.getElem?_eq_getElem (by omega)]
    rfl

/-! Steps on a stream, by the tokens that are left. -/

theorem run_current_cursor (h : t :: ts <:+ all) :
    StreamM.current.run (cursor all (t :: ts)) = .ok t (cursor all (t :: ts)) := by
  have ht := current?_cursor h
  simp only [StreamM.current, EStateM.run_bind, EStateM.run_get, ht, List.head?_cons]
  rfl

theorem run_current_cursor_nil :
    StreamM.current.run (cursor all []) =
      .error (.diagnostic ⟨.grammar .endOfInput, (cursor all []).here⟩) (cursor all []) := by
  have hnone := current?_cursor (List.nil_suffix (l := all))
  simp only [StreamM.current, EStateM.run_bind, EStateM.run_get, hnone, List.head?_nil]
  rfl

theorem run_advance_cursor (h : t :: ts <:+ all) :
    StreamM.advance.run (cursor all (t :: ts)) = .ok () (cursor all ts) := by
  have hmore := exhausted_cursor h
  rw [← next_cursor h]
  simp only [StreamM.advance, EStateM.run_bind, EStateM.run_get, hmore, List.isEmpty_cons]
  rfl

theorem run_take_cursor (h : t :: ts <:+ all) :
    StreamM.take.run (cursor all (t :: ts)) = .ok t (cursor all ts) := by
  rw [← next_cursor h, StreamM.take, EStateM.run_bind, run_current_cursor h]
  rfl

theorem run_expect_cursor_nil (kind : TokenKind) :
    (StreamM.expect kind none).run (cursor all []) =
      .error (.diagnostic ⟨.grammar .endOfInput, (cursor all []).here⟩) (cursor all []) := by
  rw [StreamM.expect, EStateM.run_bind, run_current_cursor_nil]

theorem run_expect_cursor_of_kind {kind : TokenKind} (h : t :: ts <:+ all) (ht : t.kind = kind) :
    (StreamM.expect kind none).run (cursor all (t :: ts)) = .ok t (cursor all ts) := by
  have hmatch : t.isMatch kind none := by simp [Token.isMatch, ht]
  rw [← next_cursor h, StreamM.expect, EStateM.run_bind, run_current_cursor h]
  simp only [if_pos hmatch]
  rfl

theorem run_expect_cursor_of_ne {kind : TokenKind} (h : t :: ts <:+ all) (ht : t.kind ≠ kind) :
    (StreamM.expect kind none).run (cursor all (t :: ts)) =
      .error (.diagnostic ⟨.grammar (.mismatch kind none t), (cursor all (t :: ts)).here⟩)
        (cursor all (t :: ts)) := by
  have hmatch : ¬ t.isMatch kind none := by simp [Token.isMatch, ht]
  rw [StreamM.expect, EStateM.run_bind, run_current_cursor h]
  simp only [if_neg hmatch]
  rfl

end Positions

end TokenStream

theorem Parser.orderly_block (n : Nat) : Parser.Orderly (Parser.block n) :=
  Parser.orderly_get.bind fun _ => (Parser.orderly_statements n _).bind fun _ => Parser.orderly_pure _

/-! ## Reading by steps -/

open TokenStream

/-- Reading by steps on a stream; there is no answer if it does not come to an end. -/
abbrev Walk := ExceptT Error (StateT TokenStream Option)

namespace Walk

/-- What comes of a walk that comes to an end. -/
def outcome {α : Type} : EStateM.Result Error TokenStream α → Except Error α × TokenStream
  | .ok a s => (.ok a, s)
  | .error e s => (.error e, s)

/-- A single step. -/
def step {α : Type} (x : StreamM α) : Walk α := fun s => some (outcome (x.run s))

def current : Walk Token := step StreamM.current

def advance : Walk Unit := step StreamM.advance

def expect (kind : TokenKind) : Walk Token := step (StreamM.expect kind none)

def refuse {α : Type} (wanted : Wanted) (got : Token) : Walk α :=
  step (StreamM.fail (.unexpected wanted got))

/-- The token `n` places after the current one, if the tokens reach that far. -/
def look (n : Int) : StreamM (Option Token) := fun s =>
  match s.peek n with
  | .ok t => .ok t s
  | .error f => .error (.fault f) s

def peek (n : Int) : Walk (Option Token) := step (look n)

def take : Walk Token := step StreamM.take

def input : Walk Expr := do
  let word ← take
  let _ ← expect .lparen
  let prompt ← expect .string
  let close ← expect .rparen
  return .input (word.span.join close.span) prompt.lexeme

def leaf : Walk Expr := do
  let t ← current
  match t.kind with
  | .number =>
    advance
    match t.value with
    | some (.int n) => return .number t.span n
    | _ => throw (.fault .malformedToken)
  | .ident =>
    let next ← peek 1
    if t.lexeme = "input" ∧ next.map Token.kind = some .lparen then input
    else
      advance
      return .name t.span t.lexeme
  | _ => refuse .operand t

/-- A walk whose budget is spent. -/
def unfinished {α : Type} : Walk α := fun _ => none

def primary (inner : Walk Expr) : Walk Expr := do
  let t ← current
  match t.kind with
  | .lparen =>
    advance
    let e ← inner
    let _ ← expect .rparen
    return e
  | .ident | .number => leaf
  | _ => refuse .expression t

def operators (operand : Int → Walk Expr) (minimum : Int) :
    (rounds : Nat) → (left : Expr) → Walk Expr
  | 0, _ => unfinished
  | rounds + 1, left => do
    let some t ← peek 0 | return left
    match t.kind with
    | .newline | .rparen => return left
    | .op =>
      match t.value with
      | some (.op o) =>
        match o.binding? with
        | none => refuse .arithmeticOperator t
        | some binding =>
          if binding.left < minimum then return left
          else
            advance
            let right ← operand binding.right
            operators operand minimum rounds (left.join o right)
      | _ => throw (.fault .malformedToken)
    | _ => refuse .operatorOrEnd t

/-- An expression. The budget is both for the expressions that are open within each other and for the
rounds that each of them makes. -/
def expression : (budget : Nat) → (minimum : Int) → Walk Expr
  | 0, _ => unfinished
  | budget + 1, minimum => do
    let left ← primary (expression budget 0)
    operators (expression budget) minimum (budget + 1) left

def print (budget : Nat) : Walk Stmt := do
  let word ← take
  let _ ← expect .lparen
  let value ← expression budget 0
  let close ← expect .rparen
  return .print (word.span.join close.span) value

def assignment (budget : Nat) : Walk Stmt := do
  let t ← current
  if t.kind ≠ .ident then refuse .statement t
  let name ← take
  let op ← current
  if op.isMatch .op (some (.op .addAssign)) then
    advance
    let right ← expression budget 0
    let value := Expr.join (.name op.span name.lexeme) .plus right
    return .assign (name.span.join value.span) name.lexeme value
  else if op.isMatch .op (some (.op .assign)) then
    advance
    let value ← expression budget 0
    return .assign (name.span.join value.span) name.lexeme value
  else refuse .assignment op

def statement (budget : Nat) : Walk Stmt := do
  let t ← current
  if t.isWord "pass" then
    advance
    return .pass t.span
  else if t.isWord "print" then print budget
  else assignment budget

def skipNewline : Walk Unit := do
  if let some t ← peek 0 then
    if t.kind = .newline then advance

def statements (budget : Nat) : (rounds : Nat) → Walk (List Stmt)
  | 0 => unfinished
  | rounds + 1 => do
    if (← get).exhausted then return []
    let t ← current
    if t.kind = .newline then
      advance
      statements budget rounds
    else
      let s ← statement budget
      skipNewline
      return s :: (← statements budget rounds)

def block (budget : Nat) : Walk Block := do return ⟨← statements budget budget⟩

def program (budget : Nat) : Walk Program := do return ⟨← block budget⟩

section

variable {α β : Type} {w : Walk α} {x : StreamM α} {s s' : TokenStream}

theorem bind_of_ok {a : α} (h : w s = some (.ok a, s')) (g : α → Walk β) : (w >>= g) s = g a s' := by
  show Option.bind (w s) _ = _
  rw [h]
  rfl

theorem bind_of_error {e : Error} (h : w s = some (.error e, s')) (g : α → Walk β) :
    (w >>= g) s = some (.error e, s') := by
  show Option.bind (w s) _ = _
  rw [h]
  rfl

theorem step_bind_of_ok {a : α} (h : x.run s = .ok a s') (g : α → Walk β) :
    (step x >>= g) s = g a s' :=
  bind_of_ok (by rw [step, h, outcome]) g

theorem step_bind_of_error {e : Error} (h : x.run s = .error e s') (g : α → Walk β) :
    (step x >>= g) s = some (.error e, s') :=
  bind_of_error (by rw [step, h, outcome]) g

end

theorem run_look_cursor {all ts : List Token} (h : ts <:+ all) (k : Nat) :
    (look k).run (cursor all ts) = .ok ts[k]? (cursor all ts) := by
  have hpeek : (cursor all ts).peek k = .ok ts[k]? := by
    rw [TokenStream.peek_natCast]
    exact congrArg Except.ok (getElem?_cursor h k)
  show look k (cursor all ts) = _
  unfold look
  rw [hpeek]

/-! ## Walks that follow readers -/

/-- What a reader makes of tokens, on the stream of which they are the end. -/
def onto {α : Type} (all : List Token) :
    EStateM.Result Rejection (List Token) α → Except Error α × TokenStream
  | .ok a ts => (.ok a, cursor all ts)
  | .error (.cause c) ts => (.error (.diagnostic ⟨.grammar c, (cursor all ts).here⟩), cursor all ts)
  | .error .malformed ts => (.error (.fault .malformedToken), cursor all ts)

/-- Where the tokens `ts` are left, the walk comes to an end and does what the reader does. -/
def Follows {α : Type} (all : List Token) (w : Walk α) (p : Parser α) (ts : List Token) : Prop :=
  w (cursor all ts) = some (onto all (p.run ts))

open Reckon.Parser (Orderly run_bind_of_ok run_bind_of_error run_expect_cons)

namespace Follows

variable {α β : Type} {all ts : List Token} {w : Walk α} {p : Parser α} {g : α → Walk β}
  {f : α → Parser β} {t : Token}

theorem pure (a : α) : Follows all (Pure.pure a) (Pure.pure a) ts := rfl

theorem throw_malformed : Follows all (throw (.fault .malformedToken) : Walk α) (throw .malformed) ts :=
  rfl

theorem refuse (wanted : Wanted) (got : Token) :
    Follows all (Walk.refuse wanted got : Walk α) (Parser.unexpected wanted got) ts :=
  rfl

theorem refuse_bind (wanted : Wanted) (got : Token) :
    Follows all (Walk.refuse wanted got >>= g) (Parser.unexpected wanted got >>= f) ts :=
  Walk.step_bind_of_error rfl g

/-- Both make the same decision. -/
theorem ite {c : Prop} [Decidable c] {w w' : Walk α} {p p' : Parser α} (hthen : c → Follows all w p ts)
    (helse : ¬ c → Follows all w' p' ts) :
    Follows all (if c then w else w') (if c then p else p') ts := by
  by_cases hc : c
  · rw [if_pos hc, if_pos hc]
    exact hthen hc
  · rw [if_neg hc, if_neg hc]
    exact helse hc

/-- One after the other. What comes after finds no tokens that were not left before. -/
theorem bind (hp : Orderly p) (hw : Follows all w p ts)
    (hg : ∀ a us, p.run ts = .ok a us → us <:+ ts → Follows all (g a) (f a) us) :
    Follows all (w >>= g) (p >>= f) ts := by
  have hsuffix := (hp ts).suffix
  unfold Follows at hw ⊢
  cases hrun : p.run ts with
  | ok a us =>
    rw [hrun] at hw hsuffix
    rw [run_bind_of_ok hrun, Walk.bind_of_ok hw]
    exact hg a us hrun hsuffix
  | error r us =>
    rw [hrun] at hw
    rw [run_bind_of_error hrun]
    cases r with
    | cause | malformed => exact Walk.bind_of_error hw g

/-- The next token is looked at, and what comes after knows that it is there. -/
theorem current_bind {g : Token → Walk β} {f : Token → Parser β} (h : ts <:+ all)
    (hg : ∀ t us, ts = t :: us → Follows all (g t) (f t) (t :: us)) :
    Follows all (Walk.current >>= g) (Parser.current >>= f) ts := by
  cases ts with
  | nil => exact Walk.step_bind_of_error run_current_cursor_nil g
  | cons t us => exact (Walk.step_bind_of_ok (run_current_cursor h) g).trans (hg t us rfl)

/-- The next token is there, and the reader has seen it. -/
theorem peek?_current_bind {g : Token → Walk β} {f : Option Token → Parser β} (h : t :: ts <:+ all)
    (hg : Follows all (g t) (f (some t)) (t :: ts)) :
    Follows all (Walk.current >>= g) (Parser.peek? >>= f) (t :: ts) :=
  (Walk.step_bind_of_ok (run_current_cursor h) g).trans hg

/-- The next token is passed, which must be there. -/
theorem advance_bind {g : Unit → Walk β} {f : Unit → Parser β} (h : t :: ts <:+ all)
    (hg : Follows all (g ()) (f ()) ts) :
    Follows all (Walk.advance >>= g) (Parser.skip >>= f) (t :: ts) :=
  (Walk.step_bind_of_ok (run_advance_cursor h) g).trans hg

theorem advance (h : t :: ts <:+ all) : Follows all Walk.advance Parser.skip (t :: ts) := by
  show some (Walk.outcome (StreamM.advance.run (cursor all (t :: ts)))) = _
  rw [run_advance_cursor h]
  rfl

/-- The next token is passed by a walk that still has to look at it. -/
theorem take_bind {g : Token → Walk β} {f : Unit → Parser β} (h : t :: ts <:+ all)
    (hg : Follows all (g t) (f ()) ts) :
    Follows all (Walk.take >>= g) (Parser.skip >>= f) (t :: ts) :=
  (Walk.step_bind_of_ok (run_take_cursor h) g).trans hg

/-- The reader has looked at the next token before the walk does. -/
theorem of_current {w : Walk β} {f : Token → Parser β} (h : Follows all w (f t) (t :: ts)) :
    Follows all w (Parser.current >>= f) (t :: ts) :=
  h

theorem expect_bind {g : Token → Walk β} {f : Token → Parser β} (kind : TokenKind) (h : ts <:+ all)
    (hg : ∀ t us, us <:+ ts → Follows all (g t) (f t) us) :
    Follows all (Walk.expect kind >>= g) (Parser.expect kind >>= f) ts := by
  cases ts with
  | nil => exact Walk.step_bind_of_error (run_expect_cursor_nil kind) g
  | cons t us =>
    unfold Follows
    by_cases ht : t.kind = kind
    · rw [run_bind_of_ok (Parser.run_expect_of_kind ht)]
      exact (Walk.step_bind_of_ok (run_expect_cursor_of_kind h ht) g).trans
        (hg t us (List.suffix_cons t us))
    · have hrun := run_expect_cons t us kind
      rw [if_neg ht] at hrun
      rw [run_bind_of_error hrun]
      exact Walk.step_bind_of_error (run_expect_cursor_of_ne h ht) g

theorem get_bind {w : Walk β} {f : List Token → Parser β} (h : Follows all w (f ts) ts) :
    Follows all w (get >>= f) ts :=
  h

/-- The walk looks at the stream itself. -/
theorem stream_bind {g : TokenStream → Walk β} {q : Parser β}
    (hg : Follows all (g (cursor all ts)) q ts) : Follows all (MonadState.get >>= g) q ts :=
  hg

/-- A token ahead is looked at, which is never a fault. -/
theorem peek_bind {g : Option Token → Walk β} {q : Parser β} (k : Nat) (h : ts <:+ all)
    (hg : Follows all (g ts[k]?) q ts) : Follows all (Walk.peek k >>= g) q ts :=
  (Walk.step_bind_of_ok (run_look_cursor h k) g).trans hg

/-- The next token is looked at, if there is one. -/
theorem peek?_bind {g : Option Token → Walk β} {f : Option Token → Parser β} (h : ts <:+ all)
    (hg : Follows all (g ts.head?) (f ts.head?) ts) :
    Follows all (Walk.peek 0 >>= g) (Parser.peek? >>= f) ts := by
  rw [List.head?_eq_getElem?] at hg
  exact .peek_bind 0 h (q := Parser.peek? >>= f) (List.head?_eq_getElem? ▸ hg)

end Follows

section Readers

variable {all ts us : List Token} {t : Token} {k n : Nat} {m : Int}

theorem follows_input (h : t :: ts <:+ all) : Follows all Walk.input Parser.input (t :: ts) := by
  have hts := suffix_of_cons h
  refine .of_current (.take_bind h (.expect_bind _ hts fun _ us hus => ?_))
  refine .expect_bind _ (hus.trans hts) fun _ vs hvs => ?_
  exact .expect_bind _ ((hvs.trans hus).trans hts) fun _ _ _ => .pure _

theorem follows_leaf (h : ts <:+ all) : Follows all Walk.leaf Parser.leaf ts := by
  refine .current_bind h fun t us hts => ?_
  subst hts
  cases hk : t.kind with
  | number =>
    refine .advance_bind h ?_
    cases t.value with
    | none => exact .throw_malformed
    | some v => cases v with
      | int n => exact .pure _
      | op o => exact .throw_malformed
  | ident =>
    refine .peek_bind 1 h (.get_bind (.ite (fun _ => ?_) fun _ => ?_))
    · exact follows_input h
    · exact .advance_bind h (.pure _)
  | newline | comma | string | lparen | rparen | op => exact .refuse _ _

theorem follows_primary {walk : Walk Expr} {inner : Parser Expr} (hp : Orderly inner) (h : ts <:+ all)
    (hinner : ∀ us, us.length < ts.length → us <:+ all → Follows all walk inner us) :
    Follows all (Walk.primary walk) (Parser.primary inner) ts := by
  refine .current_bind h fun t us hts => ?_
  subst hts
  cases t.kind with
  | lparen =>
    have hus := suffix_of_cons h
    refine .advance_bind h (.bind hp (hinner us (Nat.lt_succ_self _) hus) fun e vs _ hvs => ?_)
    exact .expect_bind _ (hvs.trans hus) fun _ _ _ => .pure e
  | ident | number => exact follows_leaf h
  | newline | comma | string | rparen | op => exact .refuse _ _

/-- The loop over operators. With each round there are fewer tokens, so neither the rounds nor the bound
run out. -/
theorem follows_operators {walk : Int → Walk Expr} {operand : Int → Parser Expr}
    (hp : ∀ m, Orderly (operand m)) {size rounds : Nat}
    (hoperand : ∀ m us, us.length < size → us <:+ all → Follows all (walk m) (operand m) us)
    {bound : List Token} {left : Expr} (hsize : ts.length ≤ size) (hrounds : ts.length < rounds)
    (hbound : ts.length ≤ bound.length) (h : ts <:+ all) :
    Follows all (Walk.operators walk m rounds left) (Parser.operators operand m bound left) ts := by
  induction bound generalizing ts rounds left with
  | nil =>
    obtain ⟨r, rfl⟩ := Nat.exists_eq_add_one_of_ne_zero (Nat.ne_zero_of_lt hrounds)
    obtain rfl := List.length_eq_zero_iff.1 (Nat.le_zero.1 hbound)
    exact .peek_bind 0 h (.pure left)
  | cons x bound ih =>
    obtain ⟨r, rfl⟩ := Nat.exists_eq_add_one_of_ne_zero (Nat.ne_zero_of_lt hrounds)
    refine .peek?_bind h ?_
    cases ts with
    | nil => exact .pure left
    | cons t us =>
      dsimp only [List.head?_cons]
      cases t.kind with
      | newline | rparen => exact .pure left
      | comma | ident | number | string | lparen => exact .refuse _ _
      | op =>
        cases t.value with
        | none => exact .throw_malformed
        | some v =>
          cases v with
          | int n => exact .throw_malformed
          | op o =>
            dsimp only
            cases o.binding? with
            | none => exact .refuse _ _
            | some b =>
              refine .ite (fun _ => .pure left) fun _ => ?_
              simp only [List.length_cons] at hsize hrounds hbound
              have hus := suffix_of_cons h
              refine .advance_bind h (.bind (hp _) (hoperand _ us (by omega) hus) fun right vs _ hvs => ?_)
              have hle := hvs.length_le
              exact ih (by omega) (by omega) (by omega) (hvs.trans hus)

theorem follows_expression (h : ts <:+ all) (hk : ts.length < k) (hn : ts.length < n) :
    Follows all (Walk.expression k m) (Parser.expression n m) ts := by
  induction hlen : ts.length using Nat.strongRecOn generalizing ts k n m with
  | _ len ih =>
    obtain ⟨k, rfl⟩ := Nat.exists_eq_add_one_of_ne_zero (Nat.ne_zero_of_lt hk)
    obtain ⟨n, rfl⟩ := Nat.exists_eq_add_one_of_ne_zero (Nat.ne_zero_of_lt hn)
    have horderly := Parser.orderly_expression n
    have hoperand (m : Int) (us : List Token) (hlt : us.length < ts.length) (hus : us <:+ all) :
        Follows all (Walk.expression k m) (Parser.expression n m) us :=
      ih us.length (by omega) hus (by omega) (by omega) rfl
    refine .bind (Parser.orderly_primary (horderly 0)) (follows_primary (horderly 0) h (hoperand 0))
      fun left us _ hus => .get_bind ?_
    have hle := hus.length_le
    exact follows_operators horderly hoperand hle (by omega) (Nat.le_refl _) (hus.trans h)

theorem follows_print (h : t :: ts <:+ all) (hk : ts.length < k) (hn : ts.length < n) :
    Follows all (Walk.print k) (Parser.print n) (t :: ts) := by
  have hts := suffix_of_cons h
  refine .of_current (.take_bind h (.expect_bind _ hts fun _ us hus => ?_))
  have hle := hus.length_le
  have hvalue : Follows all (Walk.expression k 0) (Parser.expression n 0) us :=
    follows_expression (hus.trans hts) (by omega) (by omega)
  refine .bind (Parser.orderly_expression n 0) hvalue fun _ vs _ hvs => ?_
  exact .expect_bind _ ((hvs.trans hus).trans hts) fun _ _ _ => .pure _

theorem follows_assignment (h : ts <:+ all) (hk : ts.length < k) (hn : ts.length < n) :
    Follows all (Walk.assignment k) (Parser.assignment n) ts := by
  refine .current_bind h fun t us hts => ?_
  subst hts
  refine .ite (fun _ => .refuse_bind _ _) fun _ => ?_
  have hus := suffix_of_cons h
  refine .take_bind h (.current_bind hus fun op vs hvs => ?_)
  subst hvs
  simp only [List.length_cons] at hk hn
  -- the value is read in the same way, whichever the operator
  have hvalue {f : Expr → Stmt} :
      Follows all (Walk.advance >>= fun _ => Walk.expression k 0 >>= fun e => pure (f e))
        (Parser.skip >>= fun _ => Parser.expression n 0 >>= fun e => pure (f e)) (op :: vs) :=
    .advance_bind hus <| .bind (Parser.orderly_expression n 0)
      (follows_expression (suffix_of_cons hus) (by omega) (by omega)) fun _ _ _ _ => .pure _
  refine .ite (fun _ => hvalue) fun _ => .ite (fun _ => hvalue) fun _ => ?_
  exact .refuse _ _

theorem follows_statement (h : ts <:+ all) (hk : ts.length < k) (hn : ts.length < n) :
    Follows all (Walk.statement k) (Parser.statement n) ts := by
  refine .current_bind h fun t us hts => ?_
  subst hts
  refine .ite (fun _ => .advance_bind h (.pure _)) fun _ => .ite (fun _ => ?_) fun _ => ?_
  · rw [List.length_cons] at hk hn
    exact follows_print h (by omega) (by omega)
  · exact follows_assignment h hk hn

theorem follows_skipNewline (h : ts <:+ all) : Follows all Walk.skipNewline Parser.skipNewline ts := by
  refine .peek?_bind h ?_
  cases ts with
  | nil => exact .pure ()
  | cons t us => exact .ite (fun _ => .advance h) fun _ => .pure ()

theorem follows_statements_nil {rounds : Nat} (hrounds : 0 < rounds) :
    Follows all (Walk.statements k rounds) (pure []) [] := by
  obtain ⟨r, rfl⟩ := Nat.exists_eq_add_one_of_ne_zero (Nat.ne_zero_of_lt hrounds)
  have hnone : (cursor all []).exhausted := exhausted_cursor List.nil_suffix
  refine .stream_bind ?_
  rw [if_pos hnone]
  exact .pure []

/-- The loop over statements. Each round reads a token at least. -/
theorem follows_statements {rounds count : Nat} (h : ts <:+ all) (hk : ts.length < k)
    (hn : ts.length < n) (hrounds : ts.length < rounds) (hcount : ts.length ≤ count) :
    Follows all (Walk.statements k rounds) (Parser.statements n count) ts := by
  induction count generalizing ts rounds with
  | zero =>
    obtain rfl := List.length_eq_zero_iff.1 (Nat.le_zero.1 hcount)
    exact follows_statements_nil hrounds
  | succ count ih =>
    cases ts with
    | nil => exact follows_statements_nil hrounds
    | cons t us =>
      obtain ⟨r, rfl⟩ := Nat.exists_eq_add_one_of_ne_zero (Nat.ne_zero_of_lt hrounds)
      have hmore : ¬ (cursor all (t :: us)).exhausted := by
        rw [exhausted_cursor h]
        exact Bool.false_ne_true
      simp only [List.length_cons] at hk hn hrounds hcount
      have hus := suffix_of_cons h
      refine .stream_bind ?_
      rw [if_neg hmore]
      refine .peek?_current_bind h (.ite (fun _ => ?_) fun _ => ?_)
      · exact .advance_bind h (ih hus (by omega) (by omega) (by omega) (by omega))
      have hstatement : Follows all (Walk.statement k) (Parser.statement n) (t :: us) :=
        follows_statement h hk hn
      refine .bind (Parser.orderly_statement n) hstatement fun s vs hrun hvs => ?_
      have hlt := Parser.length_lt_of_run_statement hrun
      rw [List.length_cons] at hlt
      refine .bind Parser.orderly_skipNewline (follows_skipNewline (hvs.trans h)) fun _ ws _ hws => ?_
      have hle := hws.length_le
      have hothers : Follows all (Walk.statements k r) (Parser.statements n count) ws :=
        ih ((hws.trans hvs).trans h) (by omega) (by omega) (by omega) (by omega)
      exact .bind (Parser.orderly_statements n count) hothers fun _ _ _ _ => .pure _

theorem follows_block (h : ts <:+ all) (hk : ts.length < k) (hn : ts.length < n) :
    Follows all (Walk.block k) (Parser.block n) ts :=
  .get_bind <| .bind (Parser.orderly_statements n _)
    (follows_statements h hk hn hk (Nat.le_refl _)) fun _ _ _ _ => .pure _

theorem follows_program (h : ts <:+ all) (hk : ts.length < k) (hn : ts.length < n) :
    Follows all (Walk.program k) (Parser.program n) ts :=
  .bind (Parser.orderly_block n) (follows_block h hk hn) fun _ _ _ _ => .pure _

end Readers

end Walk

end Reckon
