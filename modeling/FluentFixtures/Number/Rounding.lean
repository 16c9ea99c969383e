import FluentFixtures.Number.Double

/-!
# Rounding to the nearest double

`nearestRank num den` is the rank of the double nearest to a fraction; a
fraction halfway between two doubles goes to the even rank. A rank at or above
the limit is an overflow. `ofDecimal` rounds a decimal numeral; exponents that
can only overflow or vanish are not expanded.
-/

namespace FluentFixtures.Double

/-- The greatest rank whose value is at most `n` units. -/
def rankBelow (n : Nat) : Nat :=
  if n < Nat.pow 2 53 then n
  else
    let shift := n.log2 - 52
    shift * Nat.pow 2 52 + n / Nat.pow 2 shift

/-- The rank of the double nearest to `num / den`. -/
def nearestRank (num den : Nat) : Nat :=
  let scaled := num * unitsPerOne
  let below := rankBelow (scaled / den)
  let twice := (units below + units (below + 1)) * den
  if 2 * scaled < twice then below
  else if twice < 2 * scaled then below + 1
  else if below % 2 = 0 then below
  else below + 1

def ofFraction (negative : Bool) (num den : Nat) : Double :=
  ofRank negative (nearestRank num den)

/-- The double nearest to `digits` times ten to the power `exponent`. -/
def ofDecimal (negative : Bool) (digits : Nat) (exponent : Int) : Double :=
  if digits = 0 then zero negative
  else match exponent with
    | .ofNat e =>
      if e > 400 then .infinite negative else ofFraction negative (digits * Nat.pow 10 e) 1
    | .negSucc e =>
      if e > 400 + digits.log2 then zero negative
      else ofFraction negative digits (Nat.pow 10 (e + 1))

end FluentFixtures.Double
