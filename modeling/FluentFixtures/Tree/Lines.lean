import FluentFixtures.Text.Newline

/-!
# Lines of a text

`lines` cuts a text after each line feed. Every line keeps its own line feed,
and nothing follows a line feed at the end of the text. Blank lines are kept or
left out.
-/

namespace FluentFixtures.Text

/-- The lines of the pieces between line feeds; the last piece has no line feed after it. -/
def linesOf (keepBlank : Bool) : List Text → List Text
  | [] => []
  | [last] => if last.isEmpty then [] else [last]
  | piece :: rest =>
    if piece.isEmpty && !keepBlank then linesOf keepBlank rest
    else (piece ++ [Newline.lineFeed]) :: linesOf keepBlank rest

def lines (t : Text) (keepBlank : Bool) : List Text :=
  linesOf keepBlank (splitOn Newline.lineFeed t)

end FluentFixtures.Text
