import FluentFixtures.Number.Limit
import FluentFixtures.Number.Written
import FluentFixtures.Text.Surrogate
import FluentFixtures.Tree.Basic

/-!
# Writing documents

`render` writes a tree with one item or field a line, indented by its depth;
empty containers stay on their line. `write` refuses numbers that are not finite
or too long and indents that are out of range, and spells out the surrogates of
the finished text, so that what it returns is UTF-8. Trees may be nested to any
depth, and lines may be of any length.
-/

namespace FluentFixtures.Json

/-- What stands for a code point inside quotes. -/
def escapePoint (c : CodePoint) : Text :=
  if c = '"' then "\\\""
  else if c = '\\' then "\\\\"
  else if c = '\n' then "\\n"
  else if c = '\r' then "\\r"
  else if c = '\t' then "\\t"
  else if c = 0x08 then "\\b"
  else if c = 0x0C then "\\f"
  else if c.val < 0x20 then ("\\u" : Text) ++ Text.hex 4 c.val
  else [c]

def quote (t : Text) : Text := 0x22 :: t.flatMap escapePoint ++ [0x22]

/-- A double as a value of a document. -/
def doubleText (d : Double) : Text :=
  match d with
  | .finite _ _ => d.written
  | .infinite false => "Infinity"
  | .infinite true => "-Infinity"
  | .nan => "NaN"

def scalarText : Scalar → Text
  | .null => "null"
  | .bool true => "true"
  | .bool false => "false"
  | .int n => Text.integer n
  | .double d => doubleText d
  | .str t => quote t

/-- A line feed and the spaces of the next line. -/
def newline (indent depth : Nat) : Text := 0x0A :: List.replicate (indent * depth) 0x20

mutual

def render (indent depth : Nat) : Tree → Text
  | .leaf value => scalarText value
  | .seq [] => "[]"
  | .seq (t :: rest) =>
    [0x5B] ++ newline indent (depth + 1) ++ render indent (depth + 1) t ++
      renderItems indent (depth + 1) rest ++ newline indent depth ++ [0x5D]
  | .keyed [] => [0x7B, 0x7D]
  | .keyed ((name, t) :: rest) =>
    [0x7B] ++ newline indent (depth + 1) ++ quote name ++ [0x3A, 0x20] ++
      render indent (depth + 1) t ++ renderFields indent (depth + 1) rest ++
      newline indent depth ++ [0x7D]

def renderItems (indent depth : Nat) : List Tree → Text
  | [] => []
  | t :: rest =>
    [0x2C] ++ newline indent depth ++ render indent depth t ++ renderItems indent depth rest

def renderFields (indent depth : Nat) : List (Text × Tree) → Text
  | [] => []
  | (name, t) :: rest =>
    [0x2C] ++ newline indent depth ++ quote name ++ [0x3A, 0x20] ++ render indent depth t ++
      renderFields indent depth rest

end

/-- Why a tree has no document: a number that is not finite or has too many digits, or an indent
that counts no spaces. -/
inductive WriteError where
  | nonFinite (value : Double)
  | integerTooLong
  | indentOutOfRange
  deriving DecidableEq, Repr

def WriteError.message : WriteError → Text
  | nonFinite value =>
    ("Out of range float values are not JSON compliant: " : Text) ++ value.written
  | integerTooLong => tooManyDigits none
  | indentOutOfRange => "cannot fit 'int' into an index-sized integer"

/-- Indents count spaces in 64 bits. -/
def indentBound : Nat := 0x8000000000000000

def indentError? (indent : Int) : Option WriteError :=
  if indent < -indentBound || indentBound ≤ indent then some .indentOutOfRange else none

def scalarError? : Scalar → Option WriteError
  | .double d => if d.isFinite then none else some (.nonFinite d)
  | .int n => if isTooLong n then some .integerTooLong else none
  | _ => none

mutual

/-- The fault of the first number of a tree that has one. -/
def numberError? : Tree → Option WriteError
  | .leaf value => scalarError? value
  | .seq items => itemsError? items
  | .keyed fields => fieldsError? fields

def itemsError? : List Tree → Option WriteError
  | [] => none
  | t :: rest => (numberError? t).or (itemsError? rest)

def fieldsError? : List (Text × Tree) → Option WriteError
  | [] => none
  | (_, t) :: rest => (numberError? t).or (fieldsError? rest)

end

/-- The fault of a tree or of the indent, which a text on its own does without. -/
def error? (indent : Int) : Tree → Option WriteError
  | .leaf (.str _) => none
  | t => (indentError? indent).or (numberError? t)

/-- The document of a tree. A negative indent counts as none. -/
def write (indent : Int) (t : Tree) : Except WriteError Text :=
  match error? indent t with
  | some e => .error e
  | none => .ok (Surrogate.escape (render indent.toNat 0 t))

end FluentFixtures.Json
