import FluentFixtures.Text.Printable

/-!
# Quoted text in messages

A message shows a text between quotes: single ones, or double ones if the text
holds a single quote and no double one. Backslashes and the chosen quote are
escaped, and so is what does not print. Bytes are shown as the ASCII text they
are, behind a letter, and all others by their numbers.
-/

namespace FluentFixtures.Quoted

/-- The quote that surrounds a text. -/
def quoteFor (t : Text) : CodePoint :=
  if t.contains 0x27 && !t.contains 0x22 then 0x22 else 0x27

def showPoint (quote c : CodePoint) : Text :=
  if c = quote || c = 0x5C then [0x5C, c]
  else if c = 0x09 then "\\t"
  else if c = 0x0A then "\\n"
  else if c = 0x0D then "\\r"
  else if Printable.isPrintable c then [c]
  else if c.val < 0x100 then ("\\x" : Text) ++ Text.hex 2 c.val
  else if c.val < 0x10000 then ("\\u" : Text) ++ Text.hex 4 c.val
  else ("\\U" : Text) ++ Text.hex 8 c.val

def quote (t : Text) : Text :=
  let q := quoteFor t
  q :: t.flatMap (showPoint q) ++ [q]

def showByte (quote : CodePoint) (b : UInt8) : Text :=
  if b < 0x7F then showPoint quote (CodePoint.ofByte b)
  else ("\\x" : Text) ++ Text.hex 2 b.toNat

def quoteBytes (bytes : List UInt8) : Text :=
  let q := quoteFor (bytes.map CodePoint.ofByte)
  0x62 :: q :: bytes.flatMap (showByte q) ++ [q]

end FluentFixtures.Quoted
