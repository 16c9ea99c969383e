/-!
# Double-precision numbers

A `Double` is exact data, so that reading and writing one can be reasoned about.
The finite numbers of one sign are counted from zero upwards: `rank` is the
number's place, and `units` its value as a multiple of the smallest positive
double, two to the power -1074. Negative zero is a number of its own.
-/

namespace FluentFixtures

/-- Numerals denote ranks, since there are some. -/
instance rankLimit_neZero : @NeZero Nat Zero.ofOfNat0 0x7FF0000000000000 :=
  ⟨Nat.succ_ne_zero 0x7FEFFFFFFFFFFFFF⟩

inductive Double where
  | finite (negative : Bool) (rank : Fin 0x7FF0000000000000)
  | infinite (negative : Bool)
  | nan
  deriving DecidableEq, Repr

namespace Double

/-- The value of a rank in units of the smallest positive number. -/
def units (rank : Nat) : Nat :=
  let binade := Nat.pow 2 52
  if rank < binade then rank
  else (binade + rank % binade) * Nat.pow 2 (rank / binade - 1)

/-- The number of units in one. -/
@[irreducible] def unitsPerOne : Nat := Nat.pow 2 1074

def ofRank (negative : Bool) (rank : Nat) : Double :=
  if h : rank < 0x7FF0000000000000 then .finite negative ⟨rank, h⟩ else .infinite negative

def zero (negative : Bool) : Double := .finite negative 0

def isFinite : Double → Bool
  | .finite _ _ => true
  | _ => false

def isZero : Double → Bool
  | .finite _ rank => rank.val = 0
  | _ => false

/-- The value of a finite number in units. -/
def signedUnits (negative : Bool) (rank : Nat) : Int :=
  if negative then -(units rank : Int) else units rank

/-- The integer left when the fraction is cut off. -/
def truncate (negative : Bool) (rank : Nat) : Int :=
  let whole : Int := (units rank / unitsPerOne : Nat)
  if negative then -whole else whole

end Double

end FluentFixtures
