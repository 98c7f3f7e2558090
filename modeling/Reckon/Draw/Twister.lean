/-!
# The Mersenne Twister

A source of 32-bit words with a state of 624 words. When all words of a state have been given out
the whole state is renewed at once; a word is *tempered* on its way out. The seed is a list of words
of any length, all of which take part in the first state.
-/

namespace Reckon.Draw

/-- The number of words in a state. -/
def stateSize : Nat := 624

/-- The state of a source of random words. -/
structure Twister where
  /-- The words of the state. -/
  words : Array UInt32
  /-- How many of them have been given out. -/
  used : Nat

namespace Twister

/-- The word at index `i` of a state. -/
def word (words : Array UInt32) (i : Nat) : UInt32 := words.getD i 0

/-- Folds the high bits of a word into its low ones. -/
def fold (w : UInt32) : UInt32 := w ^^^ (w >>> 30)

/-! ## Seeding -/

/-- The state in which each word follows from the one before it, the first being `seed`. -/
def spread (seed : UInt32) : Array UInt32 :=
  (List.range (stateSize - 1)).foldl
    (fun words i =>
      words.push (1812433253 * fold (word words i) + UInt32.ofNat (i + 1)))
    #[seed]

/-- Goes on to the next index of a state, from the last one to the second, and then also copies
the last word to the front. -/
def advance (words : Array UInt32) (i : Nat) : Array UInt32 × Nat :=
  if i + 1 < stateSize then (words, i + 1)
  else (words.setIfInBounds 0 (word words (stateSize - 1)), 1)

/-- Mixes the words of a key into a state, going round the state and the key as often as it takes to
use all words of both. -/
def absorb (key : Array UInt32) (words : Array UInt32) : Array UInt32 × Nat :=
  (List.range (max stateSize key.size)).foldl
    (fun (words, i) k =>
      let j := k % key.size
      let mixed := (word words i ^^^ (fold (word words (i - 1)) * 1664525)) +
        word key j + UInt32.ofNat j
      advance (words.setIfInBounds i mixed) i)
    (words, 1)

/-- Mixes a state once more, from the index `start` on. -/
def stir (words : Array UInt32) (start : Nat) : Array UInt32 :=
  ((List.range (stateSize - 1)).foldl
    (fun (words, i) _ =>
      let mixed := (word words i ^^^ (fold (word words (i - 1)) * 1566083941)) - UInt32.ofNat i
      advance (words.setIfInBounds i mixed) i)
    (words, start)).1

/-- The first state for a key of one word or more. -/
def ofKey (key : Array UInt32) : Twister :=
  let (words, i) := absorb key (spread 19650218)
  ⟨(stir words i).setIfInBounds 0 0x80000000, stateSize⟩

/-- The words of a number, the least significant first; zero has one word. -/
def wordsOf (n : Nat) : List UInt32 :=
  if n < 0x100000000 then [UInt32.ofNat n]
  else UInt32.ofNat n :: wordsOf (n / 0x100000000)
termination_by n
decreasing_by omega

/-- The source that belongs to a seed; the sign of a seed does not matter. -/
def ofSeed (seed : Int) : Twister := ofKey (wordsOf seed.natAbs).toArray

/-! ## Drawing -/

/-- The word that takes the place of index `i` when a state is renewed. -/
def renewed (words : Array UInt32) (i : Nat) : UInt32 :=
  let y := (word words i &&& 0x80000000) ||| (word words ((i + 1) % stateSize) &&& 0x7fffffff)
  word words ((i + 397) % stateSize) ^^^ (y >>> 1) ^^^ (if y &&& 1 = 0 then 0 else 0x9908b0df)

/-- Renews a state, word by word. -/
def renew (words : Array UInt32) : Array UInt32 :=
  (List.range stateSize).foldl (fun words i => words.setIfInBounds i (renewed words i)) words

/-- Spreads the bits of a word over all of it. -/
def temper (w : UInt32) : UInt32 :=
  let w := w ^^^ (w >>> 11)
  let w := w ^^^ ((w <<< 7) &&& 0x9d2c5680)
  let w := w ^^^ ((w <<< 15) &&& 0xefc60000)
  w ^^^ (w >>> 18)

/-- The next random word. -/
def next (t : Twister) : UInt32 × Twister :=
  let t := if t.used < stateSize then t else ⟨renew t.words, 0⟩
  (temper (word t.words t.used), { t with used := t.used + 1 })

/-- Draws up to `tries` numbers of as many bits as `bound + 1` has, until one is at most `bound`,
which must be less than the greatest word. A draw succeeds with a probability of at least one
half. If none does, the number is 0. -/
def drawUpTo (bound : Nat) : (tries : Nat) → Twister → Fin (bound + 1) × Twister
  | 0, t => (0, t)
  | tries + 1, t =>
    let (w, t) := t.next
    let n := w.toNat >>> (31 - (bound + 1).log2)
    if h : n < bound + 1 then (⟨n, h⟩, t) else drawUpTo bound tries t

/-- A random number that is at most `bound`. It is the first draw that is not too large, if there is
one among the next ten thousand, and 0 if there is none. Drawing ends for every state that way. -/
def upTo (bound : Nat) (t : Twister) : Fin (bound + 1) × Twister := drawUpTo bound 10000 t

/-- The number of numbers of 53 bits. -/
def outcomes53 : Nat := 0x20000000000000

/-- A random number of 53 bits, made of the high bits of two words. -/
def bits53 (t : Twister) : Fin outcomes53 × Twister :=
  let (a, t) := t.next
  let (b, t) := t.next
  let n := ((a.toNat >>> 5) <<< 26) + (b.toNat >>> 6)
  (⟨n % outcomes53, Nat.mod_lt n (by decide)⟩, t)

end Twister

end Reckon.Draw
