import Reckon.Diagnostic
import Reckon.Text.Blank

/-!
# Whole numbers as people type them

A whole number may be typed with blanks around it, a sign before it, single underscores between its
digits, and the decimal digits of any script. The table lists the zero of each script that has
decimal digits, as of version 14 of the character standard; the other nine digits follow it.
-/

namespace Reckon.Text

/-- The code points of the digits for zero. -/
def zeros : List Nat :=
  [0x30, 0x660, 0x6f0, 0x7c0, 0x966, 0x9e6, 0xa66, 0xae6, 0xb66, 0xbe6, 0xc66, 0xce6, 0xd66,
   0xde6, 0xe50, 0xed0, 0xf20, 0x1040, 0x1090, 0x17e0, 0x1810, 0x1946, 0x19d0, 0x1a80, 0x1a90,
   0x1b50, 0x1bb0, 0x1c40, 0x1c50, 0xa620, 0xa8d0, 0xa900, 0xa9d0, 0xa9f0, 0xaa50, 0xabf0, 0xff10,
   0x104a0, 0x10d30, 0x11066, 0x110f0, 0x11136, 0x111d0, 0x112f0, 0x11450, 0x114d0, 0x11650,
   0x116c0, 0x11730, 0x118e0, 0x11950, 0x11c50, 0x11d50, 0x11da0, 0x16a60, 0x16ac0, 0x16b50,
   0x1d7ce, 0x1d7d8, 0x1d7e2, 0x1d7ec, 0x1d7f6, 0x1e140, 0x1e2f0, 0x1e950, 0x1fbf0]

/-- The value of a decimal digit of any script. -/
def digitValue? (c : Char) : Option Nat :=
  (zeros.find? fun z => z ≤ c.toNat && c.toNat < z + 10).map fun z => c.toNat - z

/-- Whether a character may surround a whole number: a blank, but none of the separators among the
controls. -/
def surroundsInteger (c : Char) : Bool := isBlank c && !(0x1c ≤ c.toNat && c.toNat ≤ 0x1f)

/-- The values of digits, between which single underscores may stand; the first character is a
digit, and so is the last. -/
def digits? : List Char → Option (List Nat)
  | [] => none
  | [c] => (digitValue? c).map fun d => [d]
  | c :: '_' :: rest => do
    let d ← digitValue? c
    let ds ← digits? rest
    return d :: ds
  | c :: rest => do
    let d ← digitValue? c
    let ds ← digits? rest
    return d :: ds

/-- The whole number that a text spells. -/
def integer? (text : String) : Option Int := do
  let (negative, unsigned) := match trimBy surroundsInteger text.toList with
    | '-' :: rest => (true, rest)
    | '+' :: rest => (false, rest)
    | cs => (false, cs)
  let digits ← digits? unsigned
  if maxDigits < digits.length then none
  let magnitude : Int := Int.ofNat (digits.foldl (fun n d => 10 * n + d) 0)
  return if negative then -magnitude else magnitude

end Reckon.Text
