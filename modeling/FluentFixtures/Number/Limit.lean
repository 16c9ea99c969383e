import FluentFixtures.Text.Basic

/-!
# The limit on decimal integers

A decimal integer may have 4300 digits. Longer ones are refused wherever they
are read or written.
-/

namespace FluentFixtures

/-- The greatest number of digits of a decimal integer. -/
def digitLimit : Nat := 4300

/-- The least number with too many digits. -/
def integerBound : Nat := Nat.pow 10 digitLimit

/-- Whether an integer has too many digits to be written. -/
def isTooLong (n : Int) : Bool := integerBound ≤ n.natAbs

/-- What is said of an integer with too many digits, whose number is known when it is read. -/
def tooManyDigits (digits? : Option Nat) : Text :=
  let count : Text :=
    match digits? with
    | some digits => (": value has " : Text) ++ Text.decimal digits ++ (" digits" : Text)
    | none => []
  ("Exceeds the limit (" : Text) ++ Text.decimal digitLimit ++
    (" digits) for integer string conversion" : Text) ++ count ++
    ("; use sys.set_int_max_str_digits() to increase the limit" : Text)

end FluentFixtures
