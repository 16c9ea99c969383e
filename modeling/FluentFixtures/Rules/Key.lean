import FluentFixtures.Text.Utf8
import FluentFixtures.Tree.Edit

/-!
# Keys of rule tables

A rule table names parent keys and types by what a configuration file can hold as
a key: scalars, bytes, dates, moments, and pairs of keys. Two keys are the same
if their canonical forms agree: `true`, `1` and `1.0` are one key, a moment is
one key whatever clock tells it, and no string is a number. A set of keys is a
list without two members that are the same; the member that came first stays.
-/

namespace FluentFixtures

namespace Scalar

/-- The integer that a number equals, if it equals one. -/
def int? : Scalar → Option Int
  | .bool b => some (if b then 1 else 0)
  | .int n => some n
  | .double (.finite negative rank) =>
    if Double.units rank % Double.unitsPerOne = 0 then some (Double.truncate negative rank)
    else none
  | _ => none

/-- The form that all scalars equal to this one share. -/
def canonical (s : Scalar) : Scalar :=
  match s.int? with
  | some n => .int n
  | none => s

/-- Whether two scalars name the same key. -/
def same (a b : Scalar) : Bool := a.canonical = b.canonical

theorem same_self (a : Scalar) : same a a = true := by simp [same]

theorem same_comm (a b : Scalar) : same a b = same b a := by
  simp only [same, decide_eq_decide]
  exact eq_comm

end Scalar

/-- A day and a time, in microseconds on the clock that told it. The offset is how far that clock is
ahead of universal time, if it is known. -/
structure Moment where
  clock : Int
  offset : Option Int
  deriving DecidableEq, Repr

namespace Moment

/-- The microseconds of universal time, or of the clock if that is all there is to tell. -/
def instant (m : Moment) : Int := m.clock - m.offset.getD 0

/-- The form that all moments equal to this one share. -/
def canonical (m : Moment) : Moment := ⟨m.instant, m.offset.map fun _ => 0⟩

end Moment

inductive Key where
  | scalar (value : Scalar)
  | bytes (value : Bytes)
  /-- A day, by its number. -/
  | date (day : Int)
  | moment (value : Moment)
  | pair (first second : Key)
  deriving DecidableEq, Repr

namespace Key

instance : Coe Scalar Key := ⟨.scalar⟩

@[match_pattern] abbrev null : Key := .scalar .null
@[match_pattern] abbrev bool (value : Bool) : Key := .scalar (.bool value)
@[match_pattern] abbrev int (value : Int) : Key := .scalar (.int value)
@[match_pattern] abbrev double (value : Double) : Key := .scalar (.double value)
@[match_pattern] abbrev str (value : Text) : Key := .scalar (.str value)

def kind : Key → ValueKind
  | scalar s => s.kind
  | bytes _ => .bytes
  | date _ => .date
  | moment _ => .moment
  | pair _ _ => .pair

/-- The form that all keys equal to this one share. -/
def canonical : Key → Key
  | scalar s => scalar s.canonical
  | moment m => moment m.canonical
  | pair a b => pair a.canonical b.canonical
  | key => key

def same (a b : Key) : Bool := a.canonical = b.canonical

theorem same_self (a : Key) : same a a = true := by simp [same]

theorem same_trans {a b c : Key} (hab : same a b = true) (hbc : same b c = true) :
    same a c = true := by
  simp only [same, decide_eq_true_eq] at *
  exact hab.trans hbc

end Key

/-- The key as a scalar of the rule table: the root has the null key. -/
def ParentKey.scalar : ParentKey → Scalar
  | .root => .null
  | .field name => .str name
  | .index position => .int position

/-- A set of keys under `Key.same`. -/
abbrev KeySet := List Key

namespace KeySet

def member (key : Key) (keys : KeySet) : Bool := keys.any (Key.same key)

def insert (keys : KeySet) (key : Key) : KeySet :=
  if member key keys then keys else keys ++ [key]

def ofList (keys : List Key) : KeySet := keys.foldl insert []

end KeySet

/-- A finite map from keys under `Key.same`: setting a key that is there keeps its first
spelling and its place. -/
abbrev KeyMap (α : Type) := List (Key × α)

namespace KeyMap

variable {α : Type}

def get? (key : Key) (map : KeyMap α) : Option α :=
  (map.find? fun entry => Key.same key entry.1).map Prod.snd

def put : KeyMap α → Key → α → KeyMap α
  | [], key, value => [(key, value)]
  | entry :: rest, key, value =>
    if Key.same key entry.1 then (entry.1, value) :: rest else entry :: put rest key value

def ofList (entries : List (Key × α)) : KeyMap α :=
  entries.foldl (fun map entry => put map entry.1 entry.2) []

end KeyMap

end FluentFixtures
