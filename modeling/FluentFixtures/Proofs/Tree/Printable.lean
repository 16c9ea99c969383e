import FluentFixtures.Json.Writer
import FluentFixtures.Proofs.Tree.Every

/-!
# Trees of printable strings

A printable text is printable ASCII. `Tree.Printable` trees have such strings for
leaves, and such names, which are short enough in quotes for keys of one line.
-/

namespace FluentFixtures

def Text.PrintableAscii (t : Text) : Prop := ∀ c ∈ t, 0x20 ≤ c.val ∧ c.val ≤ 0x7E

instance (t : Text) : Decidable t.PrintableAscii :=
  List.decidableBAll (fun c : CodePoint => 0x20 ≤ c.val ∧ c.val ≤ 0x7E) t

def Text.IsSpacing (t : Text) : Prop := ∀ c ∈ t, c = CodePoint.ofChar ' ' ∨ c = CodePoint.ofChar '\n'

def Scalar.IsPrintable (s : Scalar) : Prop := ∃ t, s = .str t ∧ t.PrintableAscii

namespace Tree

/-- Whether names are printable, and no longer in quotes than a key may be that has its colon on its
line. -/
def NamesShort (names : List Text) : Prop :=
  ∀ name ∈ names, name.PrintableAscii ∧ (Json.quote name).length ≤ 1024

def Printable (t : Tree) : Prop := t.Every (Tree.Node Scalar.IsPrintable NamesShort)

mutual

/-- The number of containers on the longest way into a tree. -/
def height : Tree → Nat
  | .leaf _ => 0
  | .seq items => heightOfItems items + 1
  | .keyed fields => heightOfFields fields + 1

def heightOfItems : List Tree → Nat
  | [] => 0
  | t :: rest => max t.height (heightOfItems rest)

def heightOfFields : List (Text × Tree) → Nat
  | [] => 0
  | (_, t) :: rest => max t.height (heightOfFields rest)

end

end Tree

end FluentFixtures
