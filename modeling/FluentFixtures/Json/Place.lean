import FluentFixtures.Text.Newline

/-!
# Places in a document

A place is a number of code points from the start, with its line and column
counted from one. Only line feeds end lines.
-/

namespace FluentFixtures.Json

structure Place where
  offset : Nat
  line : Nat
  column : Nat
  deriving DecidableEq, Repr

/-- The place of an offset in a document. -/
def Place.of (document : Text) (offset : Nat) : Place :=
  let before := document.take offset
  { offset
    line := before.count Newline.lineFeed + 1
    column := (before.reverse.takeWhile (· ≠ Newline.lineFeed)).length + 1 }

def Place.message (place : Place) : Text :=
  ("line " : Text) ++ Text.decimal place.line ++ (" column " : Text) ++
    Text.decimal place.column ++ (" (char " : Text) ++ Text.decimal place.offset ++ (")" : Text)

end FluentFixtures.Json
