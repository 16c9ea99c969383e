import FluentFixtures.Number.Shortest

/-!
# Doubles as text

A finite double is written with its shortest digits: with a point and at least
one decimal place if its first digit counts between `10 ^ -4` and `10 ^ 15`, and
with an exponent otherwise. `Style` holds these choices.
-/

namespace FluentFixtures.Double

/-- How numerals are laid out. -/
structure Style where
  /-- The least exponent that is written out in places. -/
  leastPlace : Int
  /-- The first exponent that is too great for places. -/
  placeLimit : Int
  /-- Exponents have at least this many digits. -/
  exponentDigits : Nat

/-- Places from the fourth after the point to the sixteenth before it, exponents of two digits. -/
def style : Style := ⟨-4, 16, 2⟩

def zeros (n : Nat) : Text := List.replicate n 0x30

/-- Digits without the zeros at their end, and how many those are. -/
def trimZeros (digits : Text) : Text × Nat :=
  let ends := digits.reverse.takeWhile (· = 0x30)
  (digits.take (digits.length - ends.length), ends.length)

/-- The digits with their point, the first of them counting `10 ^ exponent`. -/
def inPlaces (digits : Text) (exponent : Int) : Text :=
  if exponent < 0 then [0x30, 0x2E] ++ zeros (-exponent - 1).toNat ++ digits
  else
    let whole := exponent.toNat + 1
    if digits.length ≤ whole then digits ++ zeros (whole - digits.length) ++ [0x2E, 0x30]
    else digits.take whole ++ [0x2E] ++ digits.drop whole

def exponentText (style : Style) (exponent : Int) : Text :=
  let digits := Text.decimal exponent.natAbs
  [0x65, if exponent < 0 then 0x2D else 0x2B] ++ zeros (style.exponentDigits - digits.length) ++
    digits

/-- The digits with a point after the first and an exponent. -/
def withExponent (style : Style) (digits : Text) (exponent : Int) : Text :=
  let fraction := digits.drop 1
  digits.take 1 ++ (if fraction.isEmpty then [] else 0x2E :: fraction) ++
    exponentText style exponent

/-- The numeral of the value of a rank. -/
def magnitude (style : Style) (rank : Nat) : Text :=
  if rank = 0 then "0.0"
  else
    let (digits, grid) := shortest rank
    let (kept, dropped) := trimZeros (Text.decimal digits)
    let exponent : Int := (kept.length + dropped + grid : Nat) - 1075
    if style.leastPlace ≤ exponent ∧ exponent < style.placeLimit then inPlaces kept exponent
    else withExponent style kept exponent

def sign (negative : Bool) : Text := if negative then [0x2D] else []

/-- The text of a double in messages and documents. -/
def written : Double → Text
  | .finite negative rank => sign negative ++ magnitude style rank
  | .infinite negative => sign negative ++ ("inf" : Text)
  | .nan => "nan"

end FluentFixtures.Double
