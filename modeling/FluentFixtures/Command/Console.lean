import FluentFixtures.Command.Markup
import FluentFixtures.Command.Packages
import FluentFixtures.Json.Reader
import FluentFixtures.Json.Writer
import FluentFixtures.Text.Width

/-!
# A console without colours

A console that is no terminal: it shows markup without its styles, drops a few
control codes, expands tabs to columns of eight cells, counted from the last line
feed, and breaks lines that are too wide. A line is broken between words; a word
that is too wide for any line starts one and is broken where that ends. White
space counts to the word before it. Names of pictures between colons stay as they
are. `plain` is the console with lines of a width.
-/

namespace FluentFixtures.Command

namespace Console

/-- Bell, backspace, vertical tab, form feed and carriage return. -/
def isDropped (c : CodePoint) : Bool :=
  c = 0x07 || c = 0x08 || c = 0x0B || c = 0x0C || c = 0x0D

/-! ## Tabs -/

def tabWidth : Nat := 8

def padded (t : Text) : Text :=
  t ++ List.replicate ((tabWidth - Width.cells t % tabWidth) % tabWidth) 0x20

/-- Joins the parts of a line between its tabs, each of which is one space and what is missing to
a column. -/
def expandParts : List Text → Text
  | [] => []
  | [part] => part
  | part :: next :: rest => padded (part ++ [0x20]) ++ expandParts (next :: rest)

def expandTabs (line : Text) : Text := expandParts (Text.splitOn 0x09 line)

/-! ## Lines of a width -/

/-- The cells of the code points of a text, one by one. -/
def cellsOf : Text → Nat
  | [] => 0
  | c :: rest => Width.ofPoint c + cellsOf rest

def words : Text → List Text
  | [] => []
  | [c] => [[c]]
  | c :: d :: rest =>
    if Markup.isSpace c && !Markup.isSpace d then [c] :: words (d :: rest)
    else
      match words (d :: rest) with
      | word :: more => (c :: word) :: more
      | [] => [[c]]

def trimEnd (t : Text) : Text := (t.reverse.dropWhile Markup.isSpace).reverse

/-- The pieces of a word behind `piece`, none wider than a line. -/
def fold (width : Nat) (piece : Text) : Text → List Text
  | [] => [piece]
  | c :: rest =>
    if cellsOf (piece ++ [c]) ≤ width then fold width (piece ++ [c]) rest
    else piece :: fold width [c] rest

/-- Puts words on lines, the first of which has begun. -/
def fill (width : Nat) (line : Text) : List Text → List Text
  | [] => [line]
  | word :: rest =>
    if cellsOf line + cellsOf (trimEnd word) ≤ width then fill width (line ++ word) rest
    else
      let lines := if line.isEmpty then [] else [line]
      if cellsOf (trimEnd word) ≤ width then lines ++ fill width word rest
      else
        let pieces := fold width [] word
        lines ++ pieces.dropLast ++ fill width (pieces.getLast?.getD []) rest

/-- Takes white space off the end of a line with more code points than a line has cells. -/
def crop (width : Nat) (line : Text) : Text :=
  line.take (max (trimEnd line).length width)

/-- The white space at the start belongs to the first word. -/
def wrap (width : Nat) (line : Text) : List Text :=
  match words (line.dropWhile Markup.isSpace) with
  | [] => [crop width line]
  | first :: rest =>
    (fill width [] ((line.takeWhile Markup.isSpace ++ first) :: rest)).map (crop width)

def lines (width : Nat) (t : Text) : Text :=
  let kept := Text.splitOn 0x0A (t.filter fun c => !isDropped c)
  Text.joinWith [0x0A] (kept.flatMap fun line => wrap width (expandTabs line)) ++ [0x0A]

/-! ## Output -/

/-- Output is in UTF-8. -/
def put (t : Text) : Except Raised Text :=
  if t.any CodePoint.isSurrogate then .error ⟨.encoding, "surrogates not allowed"⟩ else .ok t

/-- Printed documents are indented by two spaces. -/
def shownIndent : Nat := 2

def plain (width : Nat) : Console where
  escape := Markup.escape
  print message := do
    let text ← (Markup.render message).mapError fun error => ⟨.other, error.message⟩
    put (lines width text)
  printJson document := do
    let t ← (Json.read document).mapError fun error => ⟨.value, error.message⟩
    put (Json.render shownIndent 0 t ++ [0x0A])
  cells := cellsOf
  width

end Console

end FluentFixtures.Command
