import FluentFixtures.Number.Rounding
import FluentFixtures.Tree.Basic
import FluentFixtures.Yaml.Scalar

/-!
# What plain scalars denote

A plain scalar may spell null, a truth value, an integer or a floating-point
number; every other one is a string. Digits may have underscores among them. A
floating-point number needs a point, and a sign in its exponent. The signs `=`
and `<<` stand for nothing a configuration can hold. Dates and numbers in parts of
sixty are strings here.
-/

namespace FluentFixtures.Yaml.Plain

def nulls : List Text := ["", "~", "null", "Null", "NULL"]

def trues : List Text := ["yes", "Yes", "YES", "true", "True", "TRUE", "on", "On", "ON"]

def falses : List Text := ["no", "No", "NO", "false", "False", "FALSE", "off", "Off", "OFF"]

/-- The spellings of infinity, without a sign. -/
def infinities : List Text := [".inf", ".Inf", ".INF"]

def nans : List Text := [".nan", ".NaN", ".NAN"]

/-- The sign for the value of a mapping, which denotes nothing on its own. -/
def valueSign : Text := "="

/-- The sign for mappings to be merged, which denotes nothing on its own. -/
def mergeSign : Text := "<<"

/-- A sign, and whether it is a minus. -/
def sign (t : Text) : Bool × Text :=
  match t with
  | c :: rest => if c = '-' then (true, rest) else if c = '+' then (false, rest) else (false, t)
  | [] => (false, t)

def isUnderscore (c : CodePoint) : Bool := c = '_'

/-- Digits with underscores among them. -/
def isSpacedDigit (c : CodePoint) : Bool := c.isDigit || isUnderscore c

def withoutUnderscores (t : Text) : Text := t.filter fun c => !isUnderscore c

/-- The number that digits of a radix write. -/
def radixValue (radix : Nat) (digits : Text) : Nat :=
  digits.foldl (fun n c => n * radix + c.hexValue?.getD 0) 0

/-- Whether all of a text is digits of a radix and underscores, and there is something. -/
def isSpaced (radix : Nat) (t : Text) : Bool :=
  !t.isEmpty && t.all fun c => isUnderscore c || c.hexValue?.any (· < radix)

/-- The digits of an unsigned integer and their radix. -/
def integerDigits? (t : Text) : Option (Nat × Text) :=
  match t with
  | [] => none
  | first :: rest =>
    if first = '0' then
      match rest with
      | [] => some (10, t)
      | second :: digits =>
        if second = 'b' then
          if isSpaced 2 digits then some (2, withoutUnderscores digits) else none
        else if second = 'x' then
          if isSpaced 16 digits then some (16, withoutUnderscores digits) else none
        else if isSpaced 8 rest then some (8, withoutUnderscores t) else none
    else if first.isDigit && rest.all isSpacedDigit then some (10, withoutUnderscores t)
    else none

def integer (negative : Bool) (radix : Nat) (digits : Text) : Except Error Scalar :=
  if digits.isEmpty then .error (.noDigits radix)
  else if radix = 10 && digits.length > digitLimit then .error (.integerTooLong digits.length)
  else
    let magnitude : Int := radixValue radix digits
    .ok (.int (if negative then -magnitude else magnitude))

/-- The value of an exponent with its letter and sign; nothing stands for zero. -/
def exponent? (t : Text) : Option Int :=
  match t with
  | [] => some 0
  | e :: rest =>
    if e = 'e' || e = 'E' then
      match rest with
      | s :: digits =>
        if digits.isEmpty || !digits.all CodePoint.isDigit then none
        else if s = '-' then some (-(Text.decimalValue digits : Int))
        else if s = '+' then some (Text.decimalValue digits)
        else none
      | [] => none
    else none

/-- The digits of an unsigned floating-point number and the exponent of its last digit. -/
def decimal? (t : Text) : Option (Nat × Int) := do
  let whole := t.takeWhile isSpacedDigit
  match t.dropWhile isSpacedDigit with
  | point :: rest =>
    if point = '.' then
      let fraction := rest.takeWhile isSpacedDigit
      let exponent ← exponent? (rest.dropWhile isSpacedDigit)
      let leads := if whole.isEmpty then fraction else whole
      if leads.head?.any CodePoint.isDigit then
        let fraction := withoutUnderscores fraction
        some (Text.decimalValue (withoutUnderscores whole ++ fraction),
          exponent - fraction.length)
      else none
    else none
  | [] => none

/-- A floating-point number; one without a digit before its point has no sign. -/
def float? (t : Text) : Option Double :=
  let (negative, unsigned) := sign t
  if infinities.contains unsigned then some (.infinite negative)
  else if nans.contains t then some .nan
  else if unsigned.length < t.length && unsigned.head? = some (CodePoint.ofChar '.') then none
  else (decimal? unsigned).map fun (digits, exponent) => .ofDecimal negative digits exponent

def value (mark : Mark) (t : Text) : Except Error Scalar :=
  if nulls.contains t then .ok .null
  else if trues.contains t then .ok (.bool true)
  else if falses.contains t then .ok (.bool false)
  else if t = valueSign then .error ((Cause.noValue "value").at mark)
  else if t = mergeSign then .error ((Cause.noValue "merge").at mark)
  else
    let (negative, unsigned) := sign t
    match integerDigits? unsigned with
    | some (radix, digits) => integer negative radix digits
    | none =>
      match float? t with
      | some d => .ok (.double d)
      | none => .ok (.str t)

end FluentFixtures.Yaml.Plain
