import FluentFixtures.Config.Value
import FluentFixtures.Number.Limit
import FluentFixtures.Text.Quoted
import FluentFixtures.Text.Script

/-!
# Indents

An indent may be given as a number, whose fraction is cut off, or as a text:
decimal digits of any script with single underscores among them, a sign in
front, and blanks around. Bytes are such a text in ASCII.
-/

namespace FluentFixtures.Config

inductive IndentError where
  | noNumber (kind : ValueKind)
  | noNumeral (text : Text)
  | noByteNumeral (bytes : Bytes)
  | tooLong (digits : Nat)
  | notANumber
  | infinite
  deriving DecidableEq, Repr

/-- No more is shown of a text that is no number, its quotes included. -/
def quotedLimit : Nat := 200

def IndentError.message : IndentError → Text
  | noNumber kind =>
    ("int() argument must be a string, a bytes-like object or a real number, not '" : Text) ++
      kind.name ++ ("'" : Text)
  | noNumeral text =>
    ("invalid literal for int() with base 10: " : Text) ++ (Quoted.quote text).take quotedLimit
  | noByteNumeral bytes =>
    ("invalid literal for int() with base 10: " : Text) ++
      (Quoted.quoteBytes bytes).take quotedLimit
  | tooLong digits => tooManyDigits (some digits)
  | notANumber => "cannot convert float NaN to integer"
  | infinite => "cannot convert float infinity to integer"

section Numerals

variable (digit? : CodePoint → Option Nat) (isBlank : CodePoint → Bool)

/-- Takes the digits at the start of a text; a single underscore may stand between two. Gives their
values in reverse, and nothing if an underscore stands elsewhere. -/
def takeDigits (afterDigit : Bool) (done : List Nat) : Text → Option (List Nat × Text)
  | [] => some (done, [])
  | c :: rest =>
    match digit? c with
    | some d => takeDigits true (d :: done) rest
    | none =>
      if c = '_' then
        match afterDigit, rest with
        | true, next :: _ =>
          if (digit? next).isSome then takeDigits false done rest else none
        | _, _ => none
      else some (done, c :: rest)

/-- The integer that a text writes with these digits and blanks, or the fault that it writes none. -/
def integerOf (fault : IndentError) (t : Text) : Except IndentError Int :=
  let (negative, unsigned) :=
    match t.dropWhile isBlank with
    | c :: rest =>
      if c = '-' then (true, rest) else if c = '+' then (false, rest) else (false, c :: rest)
    | [] => (false, [])
  match takeDigits digit? false [] unsigned with
  | none => .error fault
  | some (digits, rest) =>
    if digits.length > digitLimit then .error (.tooLong digits.length)
    else if digits.isEmpty || !rest.all isBlank then .error fault
    else
      let magnitude : Int := (digits.foldr (fun d n => n * 10 + d) 0 : Nat)
      .ok (if negative then -magnitude else magnitude)

end Numerals

def integerOfText (t : Text) : Except IndentError Int :=
  integerOf Script.digitValue? Script.isBlank (.noNumeral t) t

def asciiDigit? (c : CodePoint) : Option Nat := if c.isDigit then some c.digitValue else none

def integerOfBytes (bytes : Bytes) : Except IndentError Int :=
  integerOf asciiDigit? Script.isAsciiBlank (.noByteNumeral bytes) (bytes.map CodePoint.ofByte)

def indentOf : Value → Except IndentError Int
  | .scalar (.bool b) => .ok (if b then 1 else 0)
  | .scalar (.int n) => .ok n
  | .scalar (.double (.finite negative rank)) => .ok (Double.truncate negative rank)
  | .scalar (.double (.infinite _)) => .error .infinite
  | .scalar (.double .nan) => .error .notANumber
  | .scalar (.str t) => integerOfText t
  | .bytes b => integerOfBytes b
  | v => .error (.noNumber v.kind)

end FluentFixtures.Config
