import FluentFixtures.Number.Rounding
import FluentFixtures.Text.Basic

/-!
# The shortest decimal that reads back

A finite double is a whole number of `10 ^ -1074`. `shortest` looks at coarser
and coarser decimal grids around that number, from one digit to seventeen, and
takes the first grid on which a neighbour of the value rounds to the value
again. Of two such neighbours the nearer one wins, and the even one if the value
lies halfway.
-/

namespace FluentFixtures.Double

/-- The value of a rank in units of ten to the power -1074. -/
@[irreducible] def decimalUnits (rank : Nat) : Nat := units rank * Nat.pow 5 1074

/-- The number of decimal units in one. -/
@[irreducible] def decimalUnitsPerOne : Nat := Nat.pow 10 1074

/-- Whether `digits` steps of `10 ^ (grid - 1074)` round to `rank`. -/
def readsBack (rank grid digits : Nat) : Bool :=
  nearestRank (digits * Nat.pow 10 grid) decimalUnitsPerOne = rank

/-- Of the two multiples of a step around a value the one that passes, by its count of steps; if
both pass, the nearer one, or the even one halfway. -/
def neighbour? (passes : Nat → Bool) (value step : Nat) : Option Nat :=
  let below := value / step
  let excess := 2 * (value % step)
  match passes below, passes (below + 1) with
  | true, true =>
    if excess < step then some below
    else if step < excess then some (below + 1)
    else if below % 2 = 0 then some below
    else some (below + 1)
  | true, false => some below
  | false, true => some (below + 1)
  | false, false => none

/-- The neighbour of a value on a grid that stands for the value, if one does. -/
def onGrid? (rank grid : Nat) : Option Nat :=
  neighbour? (readsBack rank grid) (decimalUnits rank) (Nat.pow 10 grid)

/-- The first of the grids on which the value has a decimal, with that decimal. -/
def firstGrid (rank : Nat) (grids : List Nat) : Option (Nat × Nat) :=
  grids.findSome? fun grid => (onGrid? rank grid).map fun digits => (digits, grid)

/-- The grids of one digit, two digits, and so on to seventeen. -/
def grids (rank : Nat) : List Nat :=
  let size := (Text.decimal (decimalUnits rank)).length
  (List.range 17).filterMap fun i => if i < size then some (size - 1 - i) else none

/-- Digits and a grid: the shortest decimal, or the exact value. -/
def shortest (rank : Nat) : Nat × Nat :=
  (firstGrid rank (grids rank)).getD (decimalUnits rank, 0)

end FluentFixtures.Double
