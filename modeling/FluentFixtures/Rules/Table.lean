import FluentFixtures.Rules.Order

/-!
# The pruning table

The grammar allows a single production at certain positions, so the `type` of a
node there is implied. `RuleTable` says which types these are: those that any
position implies unless its parent key is exempt, and those that one parent key
implies. An exempt key shields only from the first kind.
-/

namespace FluentFixtures

/-- Which types a node's position implies. -/
structure RuleTable where
  unambiguous : KeySet
  exempt : KeySet
  positional : KeyMap KeySet
  deriving DecidableEq, Repr

namespace RuleTable

/-- Productions that are unambiguous in the Fluent grammar. -/
def defaultUnambiguous : KeySet :=
  [.str "Resource", .str "Pattern", .str "Function", .str "Variant", .str "SelectExpression",
    .str "Attribute", .str "NamedArgument", .str "VariantList", .str "Identifier"]

/-- A selector may hold several productions, and a variant key an identifier or a number. -/
def default : RuleTable :=
  { unambiguous := defaultUnambiguous
    exempt := [.str "selector"]
    positional := [(.str "key", [.str "NumberLiteral"])] }

/-- Whether a node of the type, reached under the key, loses its type. -/
def implies (rules : RuleTable) (type : Text) (key : Key) : Bool :=
  (!KeySet.member key rules.exempt && KeySet.member (.str type) rules.unambiguous) ||
    KeySet.member (.str type) ((KeyMap.get? key rules.positional).getD [])

/-- The table with all its parts in order. -/
structure Sorted where
  unambiguous : List Key
  exempt : List Key
  positional : List (Key × List Key)

/-- The table in order, unless some part mixes keys that have none. -/
def sorted? (rules : RuleTable) : Option Sorted := do
  let unambiguous ← KeySet.sort? rules.unambiguous
  let exempt ← KeySet.sort? rules.exempt
  let entries ← KeyMap.sort? rules.positional
  let positional ← entries.mapM fun entry => (KeySet.sort? entry.2).map fun types => (entry.1, types)
  some { unambiguous, exempt, positional }

end RuleTable

end FluentFixtures
