import FluentFixtures.Config.File
import FluentFixtures.Proofs.Rules.Order
import FluentFixtures.Proofs.Tree.Printable

/-!
# What is relied on of readers

The reader of configuration files is a package. Two things are relied on: a
mapping that it reads has no key twice, `Reader.Keyed`; and it takes the document
of a tree of printable strings for that tree, however it is laid out,
`Reader.ReadsDocuments`.
-/

namespace FluentFixtures.Config

/-- Whether no two keys of a mapping that is read are equal, but for those that do not equal
themselves. -/
def Reader.Keyed (reader : Reader) : Prop :=
  ∀ {path bytes entries}, reader path bytes = .ok (.mapping entries) → KeyMap.Keyed entries

/-! ## Documents -/

/-- The text of a string; other values are not spelled in quotes. -/
def textOf : Scalar → Text
  | .str t => t
  | _ => []

mutual

/-- The value of a tree of strings. -/
def valueOf : Tree → Value
  | .leaf value => .scalar (.str (textOf value))
  | .seq items => .list (itemsOf items)
  | .keyed fields => .mapping (KeyMap.ofList (entriesOf fields))

def itemsOf : List Tree → List Value
  | [] => []
  | t :: rest => valueOf t :: itemsOf rest

def entriesOf : List (Text × Tree) → List (Key × Value)
  | [] => []
  | (name, t) :: rest => (.str name, valueOf t) :: entriesOf rest

end

/-- Readers give up at some depth of nesting, but not before this one. -/
def flatHeight : Nat := 100

/-- Whether documents of printable strings are read, with blanks after them. -/
def Reader.ReadsDocuments (reader : Reader) : Prop :=
  ∀ {t : Tree}, t.Printable → t.height ≤ flatHeight → ∀ (indent : Nat) {blanks : Text},
    blanks.IsSpacing → ∀ (path : Text) {bytes : Bytes},
      Utf8.encode? (Json.render indent 0 t ++ blanks) = some bytes →
        reader path bytes = .ok (valueOf t)

end FluentFixtures.Config
