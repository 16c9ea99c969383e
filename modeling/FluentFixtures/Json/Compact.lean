import FluentFixtures.Json.Writer

/-!
# Documents on one line

`compact` writes a tree without line feeds and in ASCII: whatever is not
printable ASCII is spelled out in its strings, as two halves where four digits
do not suffice. Numbers that are not finite are written like any others.
-/

namespace FluentFixtures.Json

/-- The two halves that stand for a supplementary code point. -/
def halves (c : CodePoint) : Text :=
  [CodePoint.ofNat (0xD800 + (c.val - 0x10000) / 0x400),
    CodePoint.ofNat (0xDC00 + (c.val - 0x10000) % 0x400)]

/-- What stands for a code point inside quotes in ASCII. -/
def asciiPoint (c : CodePoint) : Text :=
  if c.val < 0x7F then escapePoint c
  else if c.val < 0x10000 then Surrogate.spelled c
  else (halves c).flatMap Surrogate.spelled

/-- The text in double quotes, in ASCII. -/
def asciiQuote (t : Text) : Text := 0x22 :: t.flatMap asciiPoint ++ [0x22]

def compactScalar : Scalar → Text
  | .str t => asciiQuote t
  | value => scalarText value

mutual

def compact : Tree → Text
  | .leaf value => compactScalar value
  | .seq [] => "[]"
  | .seq (t :: rest) => [0x5B] ++ compact t ++ compactItems rest ++ [0x5D]
  | .keyed [] => [0x7B, 0x7D]
  | .keyed ((name, t) :: rest) =>
    [0x7B] ++ asciiQuote name ++ [0x3A, 0x20] ++ compact t ++ compactFields rest ++ [0x7D]

/-- The items after the first. -/
def compactItems : List Tree → Text
  | [] => []
  | t :: rest => [0x2C, 0x20] ++ compact t ++ compactItems rest

/-- The fields after the first. -/
def compactFields : List (Text × Tree) → Text
  | [] => []
  | (name, t) :: rest =>
    [0x2C, 0x20] ++ asciiQuote name ++ [0x3A, 0x20] ++ compact t ++ compactFields rest

end

end FluentFixtures.Json
