import FluentFixtures.ErrorClass
import FluentFixtures.Json.Compact
import FluentFixtures.Rules.Table

/-!
# The pruning table as a document

The table is shown as a document of its three parts, in order. Names in a
document are strings, so a parent key that is a scalar of another kind is named
by its spelling, and one that is no scalar by nothing. A table whose keys have no
order has no document, nor has one with a part that none can hold; the first such
part is what is told. Numbers that are not finite have a place in it.
-/

namespace FluentFixtures

namespace RuleTable

/-- Why a table is not shown. -/
inductive ShownError where
  /-- Some part of the table mixes keys that have no order. -/
  | unordered
  | integerTooLong
  /-- A parent key that is no scalar. -/
  | noName (kind : ValueKind)
  /-- A member of a set that has no place in a document. -/
  | noTree (kind : ValueKind)
  deriving DecidableEq, Repr

/-- What is said of a fault; keys without an order are not told. -/
def ShownError.message? : ShownError → Option Text
  | unordered => none
  | integerTooLong => some (tooManyDigits none)
  | noName kind =>
    some (("keys must be str, int, float, bool or None, not " : Text) ++ kind.shortName)
  | noTree kind =>
    some (("Object of type " : Text) ++ kind.shortName ++ (" is not JSON serializable" : Text))

def ShownError.errorClass : ShownError → ErrorClass
  | integerTooLong => .value
  | _ => .type

def isLongInteger : Scalar → Bool
  | .int n => isTooLong n
  | _ => false

/-- A member of a set in a document; pairs are lists of two. -/
def keyTree : Key → Except ShownError Tree
  | .scalar s => if isLongInteger s then .error .integerTooLong else .ok (.leaf s)
  | .pair a b => do .ok (.seq [← keyTree a, ← keyTree b])
  | key => .error (.noTree key.kind)

/-- The name of a parent key in a document. -/
def keyName : Key → Except ShownError Text
  | .str t => .ok t
  | .scalar s => if isLongInteger s then .error .integerTooLong else .ok (Json.scalarText s)
  | key => .error (.noName key.kind)

def keysTree (keys : List Key) : Except ShownError Tree := (keys.mapM keyTree).map .seq

def entryTree (entry : Key × List Key) : Except ShownError (Text × Tree) := do
  let name ← keyName entry.1
  .ok (name, ← keysTree entry.2)

def Sorted.tree (table : Sorted) : Except ShownError Tree := do
  let unambiguous ← keysTree table.unambiguous
  let exempt ← keysTree table.exempt
  let positional ← table.positional.mapM entryTree
  .ok (.keyed [("unambiguous_types", unambiguous), ("exempt_parent_keys", exempt),
    ("positional_types", .keyed positional)])

def shown (rules : RuleTable) : Except ShownError Text :=
  match rules.sorted? with
  | none => .error .unordered
  | some table => table.tree.map Json.compact

end RuleTable

end FluentFixtures
