/-!
# Strict UTF-8

Bytes are read as characters in the shortest-form encoding, one character at a time. The first
byte of a character fixes how many bytes follow it and, to rule out overlong forms, surrogates and
numbers beyond the last code point, the range of the byte right after it. A `Failure` covers the
longest stretch of bytes that could have begun a character.
-/

namespace Reckon.Text.Utf8

/-- Why bytes are no encoded text. -/
inductive Reason
  /-- No character begins with this byte. -/
  | invalidStart
  /-- A byte is followed by one that cannot continue its character. -/
  | invalidContinuation
  /-- The bytes end within a character. -/
  | unexpectedEnd
deriving DecidableEq, Repr

/-- The wording of a reason. -/
def Reason.message : Reason → String
  | .invalidStart => "invalid start byte"
  | .invalidContinuation => "invalid continuation byte"
  | .unexpectedEnd => "unexpected end of data"

/-- The stretch of bytes at which reading stopped, and why. -/
structure Failure where
  /-- The number of bytes before the stretch. -/
  position : Nat
  /-- The first byte of the stretch. -/
  first : UInt8
  /-- How many further bytes the stretch has. -/
  further : Nat
  /-- Why the stretch encodes no character. -/
  reason : Reason
deriving DecidableEq, Repr

/-- The wording of a failure: a single byte is shown, several are only located. -/
def Failure.message (f : Failure) : String :=
  let digits := Nat.toDigits 16 f.first.toNat
  let byte := String.ofList (List.replicate (2 - digits.length) '0' ++ digits)
  if f.further = 0 then
    s!"'utf-8' codec can't decode byte 0x{byte} in position {f.position}: {f.reason.message}"
  else
    s!"'utf-8' codec can't decode bytes in position {f.position}-{f.position + f.further}: " ++
      f.reason.message

/-- What the first byte of a character tells. -/
structure Lead where
  /-- The bits of the code point that the byte carries. -/
  bits : Nat
  /-- The number of bytes that follow. -/
  owed : Nat
  /-- The least value of the next byte. -/
  low : UInt8
  /-- The greatest value of the next byte. -/
  high : UInt8

/-- Reads the first byte of a character. -/
def lead? (b : UInt8) : Option Lead :=
  let n := b.toNat
  if n < 0x80 then some ⟨n, 0, 0x80, 0xbf⟩
  else if n < 0xc2 then none
  else if n < 0xe0 then some ⟨n - 0xc0, 1, 0x80, 0xbf⟩
  else if n < 0xf0 then
    some ⟨n - 0xe0, 2, if n = 0xe0 then 0xa0 else 0x80, if n = 0xed then 0x9f else 0xbf⟩
  else if n < 0xf5 then
    some ⟨n - 0xf0, 3, if n = 0xf0 then 0x90 else 0x80, if n = 0xf4 then 0x8f else 0xbf⟩
  else none

/-- Reads the bytes that a character still owes, the next of which lies between `low` and `high`,
onto the bits read so far. A failure comes with the number of bytes that fitted. -/
def complete (bits : Nat) (low high : UInt8) : Nat → List UInt8 → Except (Reason × Nat) Nat
  | 0, _ => .ok bits
  | _ + 1, [] => .error (.unexpectedEnd, 0)
  | owed + 1, b :: bs =>
    if low ≤ b ∧ b ≤ high then
      match complete (bits * 0x40 + (b.toNat - 0x80)) 0x80 0xbf owed bs with
      | .ok code => .ok code
      | .error (reason, fitted) => .error (reason, fitted + 1)
    else .error (.invalidContinuation, 0)

/-- Reads bytes that stand after `position` others; `before` holds the characters read so far, the
latest first. -/
def decodeFrom (position : Nat) (before : List Char) : List UInt8 → Except Failure (List Char)
  | [] => .ok before.reverse
  | b :: bs =>
    match lead? b with
    | none => .error ⟨position, b, 0, .invalidStart⟩
    | some l =>
      match complete l.bits l.low l.high l.owed bs with
      | .error (reason, fitted) => .error ⟨position, b, fitted, reason⟩
      | .ok code =>
        decodeFrom (position + 1 + l.owed) (Char.ofNat code :: before) (bs.drop l.owed)
termination_by bs => bs.length
decreasing_by simp only [List.length_drop, List.length_cons]; omega

/-- The characters that the bytes encode. -/
def decode (bytes : List UInt8) : Except Failure (List Char) := decodeFrom 0 [] bytes

end Reckon.Text.Utf8
