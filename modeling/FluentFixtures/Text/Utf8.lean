import FluentFixtures.Text.Basic

/-!
# UTF-8

`encode?` writes a text as bytes and refuses surrogates; `decode` reads bytes
and says where and why they are not UTF-8. A fault names the span it blames:
the bytes that began a sequence, without the byte that broke it, or all that is
left of data that stops inside a sequence.
-/

namespace FluentFixtures

abbrev Bytes := List UInt8

namespace Utf8

inductive Reason where
  | startByte
  | continuationByte
  | endOfData
  deriving DecidableEq, Repr

/-- A fault in the bytes from `start` up to `stop`, the first of which is `byte`. -/
structure Fault where
  byte : UInt8
  start : Nat
  stop : Nat
  reason : Reason
  deriving DecidableEq, Repr

def Reason.message : Reason → Text
  | .startByte => "invalid start byte"
  | .continuationByte => "invalid continuation byte"
  | .endOfData => "unexpected end of data"

def Fault.message (fault : Fault) : Text :=
  let place : Text :=
    if fault.stop = fault.start + 1 then
      ("byte 0x" : Text) ++ Text.hex 2 fault.byte.toNat ++ (" in position " : Text) ++
        Text.decimal fault.start
    else
      ("bytes in position " : Text) ++ Text.decimal fault.start ++ ("-" : Text) ++
        Text.decimal (fault.stop - 1)
  ("'utf-8' codec can't decode " : Text) ++ place ++ (": " : Text) ++ fault.reason.message

def byte (n : Nat) : UInt8 := UInt8.ofNat n

def encodePoint (c : CodePoint) : Bytes :=
  let n := c.val
  if n < 0x80 then [byte n]
  else if n < 0x800 then [byte (0xC0 + n / 0x40), byte (0x80 + n % 0x40)]
  else if n < 0x10000 then
    [byte (0xE0 + n / 0x1000), byte (0x80 + n / 0x40 % 0x40), byte (0x80 + n % 0x40)]
  else
    [byte (0xF0 + n / 0x40000), byte (0x80 + n / 0x1000 % 0x40), byte (0x80 + n / 0x40 % 0x40),
      byte (0x80 + n % 0x40)]

def encode? (t : Text) : Option Bytes :=
  if t.any CodePoint.isSurrogate then none else some (t.flatMap encodePoint)

/-- A sequence that has begun: its first byte and place, the number of bytes read and owed, the
bounds of the next byte, and the bits read. -/
structure Pending where
  byte : UInt8
  start : Nat
  read : Nat
  owed : Nat
  low : UInt8 := 0x80
  high : UInt8 := 0xBF
  bits : Nat

/-- What a byte between sequences means: a whole code point, or the start of a sequence. -/
def lead (b : UInt8) (pos : Nat) : Option (CodePoint ⊕ Pending) :=
  let n := b.toNat
  if n < 0x80 then some (.inl (CodePoint.ofNat n))
  else if n < 0xC2 then none
  else if n < 0xE0 then some (.inr { byte := b, start := pos, read := 1, owed := 1, bits := n - 0xC0 })
  else if n < 0xF0 then
    some (.inr { byte := b, start := pos, read := 1, owed := 2, bits := n - 0xE0
                 low := if n = 0xE0 then 0xA0 else 0x80
                 high := if n = 0xED then 0x9F else 0xBF })
  else if n < 0xF5 then
    some (.inr { byte := b, start := pos, read := 1, owed := 3, bits := n - 0xF0
                 low := if n = 0xF0 then 0x90 else 0x80
                 high := if n = 0xF4 then 0x8F else 0xBF })
  else none

/-- Reads on at byte `pos`, with the text so far in reverse. -/
def decodeFrom (pos : Nat) (done : Text) : Option Pending → Bytes → Except Fault Text
  | none, [] => .ok done.reverse
  | some p, [] => .error ⟨p.byte, p.start, pos, .endOfData⟩
  | none, b :: rest =>
    match lead b pos with
    | none => .error ⟨b, pos, pos + 1, .startByte⟩
    | some (.inl c) => decodeFrom (pos + 1) (c :: done) none rest
    | some (.inr p) => decodeFrom (pos + 1) done (some p) rest
  | some p, b :: rest =>
    if p.low ≤ b ∧ b ≤ p.high then
      let bits := p.bits * 0x40 + (b.toNat - 0x80)
      if p.owed = 1 then decodeFrom (pos + 1) (CodePoint.ofNat bits :: done) none rest
      else
        decodeFrom (pos + 1) done
          (some { byte := p.byte, start := p.start, read := p.read + 1, owed := p.owed - 1, bits })
          rest
    else .error ⟨p.byte, p.start, p.start + p.read, .continuationByte⟩

def decode (bytes : Bytes) : Except Fault Text := decodeFrom 0 [] none bytes

end Utf8

end FluentFixtures
