import FluentFixtures.Text.Newline
import FluentFixtures.Text.Utf8

/-!
# Text files read in portions

A long file is decoded block by block, and its text is given out in portions, so
a fault is met only when the portion it stops is asked for. A fault counts from
the start of its block, with the bytes in front that began a sequence in the
block before. A carriage return at the end of a block waits for the next one,
which may start with its line feed.
-/

namespace FluentFixtures

structure Stream where
  /-- The bytes that are not read yet. -/
  bytes : Bytes
  /-- The bytes of a sequence that the last block cut off. -/
  cutOff : Bytes := []
  /-- Whether the last block ended in a carriage return. -/
  afterReturn : Bool := false
  /-- The text that is decoded and not given out. -/
  ready : Text := []
  /-- The length of the last block in bytes and in code points. -/
  blockBytes : Nat := 0
  blockPoints : Nat := 0

namespace Stream

/-- The least length of a block. -/
def leastBlock : Nat := 8192

/-- The length of a portion in code points. -/
def portionLength : Nat := 4096

/-- Whether a fault at the end of a block may be none, once the next block is there. Half of a
surrogate is known to be a fault only by its last byte. -/
def isOpen (bytes : Bytes) (fault : Utf8.Fault) : Bool :=
  fault.reason = .endOfData ||
    (fault.byte = 0xED && fault.start + 2 = bytes.length &&
      (bytes.getLast?.any fun b => 0xA0 ≤ b && b ≤ 0xBF))

/-- Decodes a block up to a sequence that it cuts off; nothing may be cut off at the end of the
file. -/
def decodeBlock (atEnd : Bool) (bytes : Bytes) : Except Utf8.Fault (Text × Bytes) :=
  match Utf8.decode bytes with
  | .ok t => .ok (t, [])
  | .error fault =>
    if !atEnd && isOpen bytes fault then
      (Utf8.decode (bytes.take fault.start)).map (·, bytes.drop fault.start)
    else .error fault

/-- The length of a block that should hold a number of code points, judged by the last block. -/
def blockLength (s : Stream) (points : Nat) : Nat :=
  max leastBlock
    (if s.blockPoints < s.blockBytes then points * s.blockBytes / s.blockPoints else points)

def nextBlock (s : Stream) (points : Nat) : Except Utf8.Fault (Bool × Stream) := do
  let block := s.bytes.take (s.blockLength points)
  let atEnd := block.isEmpty
  let (t, cutOff) ← decodeBlock atEnd (s.cutOff ++ block)
  let joined := s.afterReturn && (atEnd || !t.isEmpty)
  let t := if joined then Newline.carriageReturn :: t else t
  let waits := !atEnd && t.getLast? = some Newline.carriageReturn
  let t := Newline.unify (if waits then t.dropLast else t)
  .ok (atEnd && t.isEmpty,
    { bytes := s.bytes.drop block.length
      cutOff
      afterReturn := waits || (s.afterReturn && !joined)
      ready := s.ready ++ t
      blockBytes := if t.isEmpty then 0 else block.length
      blockPoints := t.length })

/-- Reads blocks until a number of code points is ready or the file ends. -/
def fill (points : Nat) (s : Stream) : Nat → Except Utf8.Fault Stream
  | 0 => .ok s
  | blocks + 1 =>
    if s.ready.length < points then
      match s.nextBlock (points - s.ready.length) with
      | .error fault => .error fault
      | .ok (ended, s) => if ended then .ok s else fill points s blocks
    else .ok s

/-- The next portion of the text, shorter than others only at the end of the file. -/
def portion (s : Stream) : Except Utf8.Fault (Text × Stream) :=
  (s.fill portionLength (s.bytes.length + 2)).map fun s =>
    (s.ready.take portionLength, { s with ready := s.ready.drop portionLength })

end Stream

end FluentFixtures
