import FluentFixtures.Rules.Key

/-!
# Configuration values

What a configuration file can hold: scalars, bytes, dates and moments, lists,
pairs, sets of keys, and mappings from keys, no two of which are the same. A list
or mapping may contain itself; its value is then cut off where that has been
followed far enough, deeper than settings look.
-/

namespace FluentFixtures.Config

inductive Value where
  | scalar (value : Scalar)
  | bytes (value : Bytes)
  /-- A day, by its number. -/
  | date (day : Int)
  | moment (value : Moment)
  | list (items : List Value)
  | pair (first second : Value)
  | set (members : KeySet)
  | mapping (entries : List (Key × Value))
  /-- A list or mapping that contains itself. -/
  | cut (kind : ValueKind)
  deriving Repr, Inhabited

namespace Value

def kind : Value → ValueKind
  | scalar s => s.kind
  | bytes _ => .bytes
  | date _ => .date
  | moment _ => .moment
  | list _ => .list
  | pair _ _ => .pair
  | set _ => .set
  | mapping _ => .mapping
  | cut kind => kind

/-- Whether a value says nothing: null, false, zero, and text, bytes, lists, sets and mappings
without parts. -/
def isEmpty : Value → Bool
  | scalar .null => true
  | scalar (.bool b) => !b
  | scalar (.int n) => n = 0
  | scalar (.double d) => d.isZero
  | scalar (.str t) => t.isEmpty
  | bytes b => b.isEmpty
  | list items => items.isEmpty
  | set members => members.isEmpty
  | mapping entries => entries.isEmpty
  | _ => false

end Value

end FluentFixtures.Config
