import Reckon.Proofs.Walk

/-!
# Positions in a stream

Programs, blocks, statements, expressions and leaves can be read from one stream, one after the other and
whether or not the last of them could be read; and the position can be moved in between.

* `Construct` is what can be read, `Construct.reader` how it is done and `Construct.walk` how it would be
  done by steps on the stream.
* `Construct.StaysWithin` says what reading may do to a stream, and `Construct.EndsWith` that it comes to
  an end whatever the tokens are. They hold for one call by `staysWithin` and `exists_endsWith`.
* `after_inBounds` is the invariant that carries over from one call to the next.
-/

namespace Reckon

open TokenStream (cursor cursor_rest)
open Reckon.Parser (Orderly)

/-! ## What is read makes the tokens fewer -/

namespace Parser

variable {inner : Parser Expr} {ts rest : List Token} {e : Expr} {n : Nat} {m : Int}

theorem length_lt_of_run_leaf (h : leaf.run ts = .ok e rest) : rest.length < ts.length := by
  obtain ⟨ws, rfl, hws⟩ := leaf_sound h
  have hpos := hws.depth_le_length
  rw [List.length_append]
  omega

theorem length_lt_of_run_primary (hinner : Orderly inner) (h : (primary inner).run ts = .ok e rest) :
    rest.length < ts.length := by
  cases ts with
  | nil => cases h
  | cons t ts =>
    by_cases hopen : t.kind = .lparen
    · have hparens : Orderly (do let e ← inner; let _ ← expect .rparen; return e : Parser Expr) :=
        hinner.bind fun e => (orderly_expect _).bind fun _ => orderly_pure e
      rw [run_primary_parens hopen] at h
      exact Nat.lt_succ_of_le (hparens.length_le h)
    · by_cases hleaf : t.kind = .ident ∨ t.kind = .number
      · rw [run_primary_leaf hleaf] at h
        exact length_lt_of_run_leaf h
      · rw [run_primary_unexpected hopen (fun hk => hleaf (.inl hk)) fun hk => hleaf (.inr hk)] at h
        cases h

/-- An expression that is read uses up a token at least, whatever operators it may have. -/
theorem length_lt_of_run_expression (h : (expression n m).run ts = .ok e rest) :
    rest.length < ts.length := by
  cases n with
  | zero => cases h
  | succ n =>
    obtain ⟨left, us, hleft, h⟩ := run_bind_eq_ok_iff.1 h
    have hlt := length_lt_of_run_primary (orderly_expression n 0) hleft
    have hle := (orderly_operators (orderly_expression n) us left).length_le h
    omega

/-- A block that is read leaves no tokens. -/
theorem eq_nil_of_run_block {b : Block} (h : (block n).run ts = .ok b rest) : rest = [] := by
  obtain ⟨us, vs, hget, h⟩ := run_bind_eq_ok_iff.1 h
  cases hget
  obtain ⟨ss, us, hss, h⟩ := run_bind_eq_ok_iff.1 h
  cases h
  exact (allStatements_sound hss).1

end Parser

/-! ## Constructs -/

/-- What can be read from a stream. -/
inductive Construct
  | program
  | block
  | statement
  | expression (minimum : Int)
  | leaf
deriving DecidableEq, Repr

/-- The stream after a step, which may have failed. -/
def streamAfter {α : Type} (r : EStateM.Result Error TokenStream α) : TokenStream :=
  (Walk.outcome r).2

namespace Construct

/-- The reader that is called. -/
def reader (limit : Nat) : Construct → Parser Node
  | program => do return .program (← Parser.program limit)
  | block => do return .block (← Parser.block limit)
  | statement => do return .stmt (← Parser.statement limit)
  | expression minimum => do return .expr (← Parser.expression limit minimum)
  | leaf => do return .expr (← Parser.leaf)

/-- The same by steps on a stream. -/
def walk (budget : Nat) : Construct → Walk Node
  | program => do return .program (← Walk.program budget)
  | block => do return .block (← Walk.block budget)
  | statement => do return .stmt (← Walk.statement budget)
  | expression minimum => do return .expr (← Walk.expression budget minimum)
  | leaf => do return .expr (← Walk.leaf)

/-- Whether all tokens are to be read. -/
def isWhole : Construct → Bool
  | program | block => true
  | statement | expression _ | leaf => false

/-- What may become of a stream `s` from which something is read. -/
structure StaysWithin (c : Construct) (s : TokenStream)
    (result : EStateM.Result Error TokenStream Node) : Prop where
  /-- The tokens are the same. -/
  tokens : (streamAfter result).tokens = s.tokens
  /-- The position is among them, or at their end. -/
  index_le : (streamAfter result).index ≤ s.tokens.length
  /-- It has not gone back. -/
  forward : s.index ≤ (streamAfter result).index
  /-- No step was made that may not be made; only a token may be at fault. -/
  error : ∀ e s', result = .error e s' → (∃ d, e = .diagnostic d) ∨ e = .fault .malformedToken
  /-- Whatever was read has a token at least. -/
  progress : c.isWhole = false → ∀ node s', result = .ok node s' → s.index < s'.index
  /-- If all tokens were to be read, none is left. -/
  whole : c.isWhole → ∀ node s', result = .ok node s' → s'.index = s.tokens.length

/-- What comes of reading from a stream if nothing is in the way. -/
structure EndsWith (c : Construct) (s : TokenStream)
    (result : EStateM.Result Error TokenStream Node) : Prop where
  /-- The walk comes to an end: it needs no more budget than there are tokens left. -/
  walk : ∀ budget, s.rest.length < budget → c.walk budget s = some (Walk.outcome result)
  /-- Nor is a limit in the way of the reader that is larger than that. -/
  reader : ∀ limit, s.rest.length < limit → (c.reader limit).onStream.run s = result
  /-- Any other limit may stop it, but changes nothing else. -/
  stopped : ∀ limit, Parser.IsStopped ((c.reader limit).onStream.run s) ∨
    (c.reader limit).onStream.run s = result

variable {c : Construct} {s : TokenStream} {ts : List Token} {n n' : Nat}

theorem orderly_reader (c : Construct) (n : Nat) : Orderly (c.reader n) := by
  cases c with
  | program => exact (Parser.orderly_program n).bind fun _ => Parser.orderly_pure _
  | block => exact (Parser.orderly_block n).bind fun _ => Parser.orderly_pure _
  | statement => exact (Parser.orderly_statement n).bind fun _ => Parser.orderly_pure _
  | expression m => exact (Parser.orderly_expression n m).bind fun _ => Parser.orderly_pure _
  | leaf => exact Parser.orderly_leaf.bind fun _ => Parser.orderly_pure _

theorem extends_reader (c : Construct) (h : n ≤ n') : Parser.Extends (c.reader n') (c.reader n) := by
  cases c with
  | program => exact (Parser.extends_program h).bind fun _ => .refl _
  | block =>
    exact ((Parser.Extends.refl get).bind fun ts => (Parser.extends_statements h ts.length).bind
      fun _ => .refl _).bind fun _ => .refl _
  | statement => exact (Parser.extends_statement h).bind fun _ => .refl _
  | expression m => exact (Parser.extends_expression h m).bind fun _ => .refl _
  | leaf => exact .refl _

theorem follows_walk (c : Construct) {all : List Token} {k : Nat} (h : ts <:+ all) (hk : ts.length < k)
    (hn : ts.length < n) : Walk.Follows all (c.walk k) (c.reader n) ts := by
  cases c with
  | program =>
    exact .bind (Parser.orderly_program n) (Walk.follows_program h hk hn) fun _ _ _ _ => .pure _
  | block => exact .bind (Parser.orderly_block n) (Walk.follows_block h hk hn) fun _ _ _ _ => .pure _
  | statement =>
    exact .bind (Parser.orderly_statement n) (Walk.follows_statement h hk hn) fun _ _ _ _ => .pure _
  | expression m =>
    exact .bind (Parser.orderly_expression n m) (Walk.follows_expression h hk hn) fun _ _ _ _ => .pure _
  | leaf => exact .bind Parser.orderly_leaf (Walk.follows_leaf h) fun _ _ _ _ => .pure _

theorem length_lt_of_run_reader (hwhole : c.isWhole = false) {node : Node} {rest : List Token}
    (h : (c.reader n).run ts = .ok node rest) : rest.length < ts.length := by
  cases c with
  | program | block => cases hwhole
  | statement =>
    obtain ⟨st, us, hst, h⟩ := Parser.run_bind_eq_ok_iff.1 h
    cases h
    exact Parser.length_lt_of_run_statement hst
  | expression m =>
    obtain ⟨e, us, he, h⟩ := Parser.run_bind_eq_ok_iff.1 h
    cases h
    exact Parser.length_lt_of_run_expression he
  | leaf =>
    obtain ⟨e, us, he, h⟩ := Parser.run_bind_eq_ok_iff.1 h
    cases h
    exact Parser.length_lt_of_run_leaf he

theorem eq_nil_of_run_reader (hwhole : c.isWhole) {node : Node} {rest : List Token}
    (h : (c.reader n).run ts = .ok node rest) : rest = [] := by
  cases c with
  | statement | expression | leaf => cases hwhole
  | block =>
    obtain ⟨b, us, hb, h⟩ := Parser.run_bind_eq_ok_iff.1 h
    cases h
    exact Parser.eq_nil_of_run_block hb
  | program =>
    obtain ⟨p, us, hp, h⟩ := Parser.run_bind_eq_ok_iff.1 h
    cases h
    obtain ⟨b, us, hb, hp⟩ := Parser.run_bind_eq_ok_iff.1 hp
    cases hp
    exact Parser.eq_nil_of_run_block hb

end Construct

/-! ## One call -/

section Outcomes

variable {α : Type} {all us : List Token} {x : EStateM.Result Rejection (List Token) α}
  {p : Parser α} {s : TokenStream}

theorem outcome_onStream (p : Parser α) (s : TokenStream) :
    Walk.outcome (p.onStream.run s) = Walk.onto s.tokens (p.run s.rest) := by
  show Walk.outcome (p.onStream s) = _
  unfold Parser.onStream
  cases p.run s.rest with
  | ok a us => rfl
  | error r us =>
    cases r with
    | cause | malformed => rfl

theorem outcome_inj {r r' : EStateM.Result Error TokenStream α}
    (h : Walk.outcome r = Walk.outcome r') : r = r' := by
  cases r <;> cases r' <;> cases h <;> rfl

theorem snd_onto : (Walk.onto all x).2 = cursor all (Parser.remaining x) := by
  cases x with
  | ok a us => rfl
  | error r us =>
    cases r with
    | cause | malformed => rfl

theorem exists_of_onStream_ok {a : α} {s' : TokenStream} (h : p.onStream.run s = .ok a s') :
    ∃ us, p.run s.rest = .ok a us ∧ s' = cursor s.tokens us := by
  have hout := outcome_onStream p s
  rw [h] at hout
  cases hrun : p.run s.rest with
  | ok b us =>
    rw [hrun] at hout
    cases hout
    exact ⟨us, rfl, rfl⟩
  | error r us =>
    rw [hrun] at hout
    cases r with
    | cause | malformed => cases hout

theorem onStream_of_run_rest {a : α} (h : p.run s.rest = .ok a us) :
    p.onStream.run s = .ok a (cursor s.tokens us) := by
  apply outcome_inj
  rw [outcome_onStream, h]
  rfl

theorem error_of_onStream {e : Error} {s' : TokenStream} (h : p.onStream.run s = .error e s') :
    (∃ d, e = .diagnostic d) ∨ e = .fault .malformedToken := by
  have hout := outcome_onStream p s
  rw [h] at hout
  cases hrun : p.run s.rest with
  | ok b us =>
    rw [hrun] at hout
    cases hout
  | error r us =>
    rw [hrun] at hout
    cases r with
    | cause c =>
      cases hout
      exact .inl ⟨_, rfl⟩
    | malformed =>
      cases hout
      exact .inr rfl

end Outcomes

namespace Construct

variable {c : Construct} {s : TokenStream}

/-- A reader stays within the tokens. -/
theorem staysWithin (c : Construct) (hs : s.index ≤ s.tokens.length) (limit : Nat) :
    c.StaysWithin s ((c.reader limit).onStream.run s) := by
  have hrest : s.rest.length = s.tokens.length - s.index := List.length_drop
  have hafter : streamAfter ((c.reader limit).onStream.run s) =
      cursor s.tokens (Parser.remaining ((c.reader limit).run s.rest)) := by
    rw [streamAfter, outcome_onStream, snd_onto]
  have hle := (c.orderly_reader limit s.rest).suffix.length_le
  constructor
  case tokens => rw [hafter]; rfl
  case index_le => rw [hafter]; exact Nat.sub_le _ _
  case forward =>
    rw [hafter]
    show s.index ≤ s.tokens.length - _
    omega
  case error => exact fun e s' h => error_of_onStream h
  case progress =>
    intro hwhole node s' h
    obtain ⟨us, hrun, rfl⟩ := exists_of_onStream_ok h
    have hlt := length_lt_of_run_reader hwhole hrun
    show s.index < s.tokens.length - us.length
    omega
  case whole =>
    intro hwhole node s' h
    obtain ⟨us, hrun, rfl⟩ := exists_of_onStream_ok h
    rw [eq_nil_of_run_reader hwhole hrun]
    rfl

/-- And it comes to an end. -/
theorem exists_endsWith (c : Construct) (hs : s.index ≤ s.tokens.length) :
    ∃ result, c.EndsWith s result := by
  have hsuffix : s.rest <:+ s.tokens := List.drop_suffix _ _
  have hwalk {budget limit : Nat} (hbudget : s.rest.length < budget) (hlimit : s.rest.length < limit) :
      c.walk budget s = some (Walk.outcome ((c.reader limit).onStream.run s)) := by
    have hfollows := c.follows_walk hsuffix hbudget hlimit
    rw [outcome_onStream, ← hfollows, cursor_rest hs]
  let enough := s.rest.length + 1
  have hreader {limit : Nat} (hlimit : s.rest.length < limit) :
      (c.reader limit).onStream.run s = (c.reader enough).onStream.run s := by
    have h := hwalk (Nat.lt_succ_self _) hlimit
    rw [hwalk (Nat.lt_succ_self _) (Nat.lt_succ_self _)] at h
    exact (outcome_inj (Option.some.inj h)).symm
  refine ⟨(c.reader enough).onStream.run s, ?_, fun limit => hreader, fun limit => ?_⟩
  · exact fun budget hbudget => hwalk hbudget (Nat.lt_succ_self _)
  · by_cases hlimit : s.rest.length < limit
    · exact .inr (hreader hlimit)
    · -- a limit that is too low stops the reader, or else more room makes no difference
      refine (Classical.em _).imp_right fun hstop => ?_
      exact ((c.extends_reader (by omega)).onStream_eq hstop).symm

end Construct

/-! ## Calls on one stream -/

/-- Something that is done to a stream. -/
inductive Move
  /-- Something is read, with a limit on nested expressions. -/
  | read (c : Construct) (limit : Nat)
  /-- The position is put back to the start. -/
  | reset
  /-- One token is passed; at the end of the tokens this fails and leaves the stream as it is. -/
  | advance
deriving DecidableEq, Repr

/-- The stream after a move, which may have failed. -/
def Move.apply : Move → TokenStream → TokenStream
  | read c limit, s => streamAfter ((c.reader limit).onStream.run s)
  | reset, s => s.reset
  | advance, s => streamAfter (StreamM.advance.run s)

/-- The stream after some moves. -/
def TokenStream.after (s : TokenStream) (moves : List Move) : TokenStream :=
  moves.foldl (fun s move => move.apply s) s

section Moves

variable {s : TokenStream}

theorem streamAfter_advance (s : TokenStream) :
    streamAfter (StreamM.advance.run s) =
      if s.exhausted then s else { s with index := s.index + 1 } := by
  rw [StreamM.advance, EStateM.run_bind, EStateM.run_get]
  dsimp only
  split <;> rfl

/-- One move leaves the position among the tokens. -/
theorem Move.apply_inBounds (move : Move) (hs : s.index ≤ s.tokens.length) :
    (move.apply s).tokens = s.tokens ∧ (move.apply s).index ≤ s.tokens.length := by
  cases move with
  | read c limit =>
    have hstays := c.staysWithin hs limit
    exact ⟨hstays.tokens, hstays.index_le⟩
  | reset => exact ⟨rfl, Nat.zero_le _⟩
  | advance =>
    rw [Move.apply, streamAfter_advance]
    by_cases hend : s.exhausted
    · rw [if_pos hend]
      exact ⟨rfl, hs⟩
    · rw [if_neg hend]
      rw [TokenStream.exhausted, decide_eq_true_eq, Nat.not_le] at hend
      exact ⟨rfl, hend⟩

/-- And so do all moves. -/
theorem after_inBounds (moves : List Move) (hs : s.index ≤ s.tokens.length) :
    (s.after moves).tokens = s.tokens ∧ (s.after moves).index ≤ s.tokens.length := by
  induction moves generalizing s with
  | nil => exact ⟨rfl, hs⟩
  | cons move moves ih =>
    obtain ⟨htokens, hindex⟩ := move.apply_inBounds hs
    have hmoves := ih (s := move.apply s) (htokens ▸ hindex)
    rw [htokens] at hmoves
    exact hmoves

/-- **Readers stay within their tokens and come to an end.** Whatever has been done to a stream, and
whatever came of it, the tokens are the same and the position is among them or at their end. Whichever
construct is read next, the walk comes to an end within a budget that the tokens allow for, and the reader
does the same unless its limit stops it. Neither passes the end of the tokens or goes back. -/
theorem readers_stayWithin (ts : List Token) (moves : List Move) :
    ((TokenStream.ofTokens ts).after moves).tokens = ts ∧
    ((TokenStream.ofTokens ts).after moves).index ≤ ts.length ∧
    ∀ c : Construct,
      (∃ result, c.EndsWith ((TokenStream.ofTokens ts).after moves) result ∧
        c.StaysWithin ((TokenStream.ofTokens ts).after moves) result) ∧
      ∀ limit, c.StaysWithin ((TokenStream.ofTokens ts).after moves)
        ((c.reader limit).onStream.run ((TokenStream.ofTokens ts).after moves)) := by
  obtain ⟨htokens, hindex⟩ := after_inBounds moves (s := .ofTokens ts) (Nat.zero_le _)
  refine ⟨htokens, hindex, fun c => ?_⟩
  have hs : ((TokenStream.ofTokens ts).after moves).index ≤
      ((TokenStream.ofTokens ts).after moves).tokens.length := by
    rw [htokens]
    exact hindex
  obtain ⟨result, hends⟩ := c.exists_endsWith hs
  refine ⟨⟨result, hends, ?_⟩, c.staysWithin hs⟩
  rw [← hends.reader _ (Nat.lt_succ_self _)]
  exact c.staysWithin hs _

end Moves

end Reckon
