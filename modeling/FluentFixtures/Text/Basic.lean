/-!
# Text as code points

A `Text` is a list of Unicode code points. Surrogates count as code points of
their own: a document may spell half of a pair as an escape, and such text is
read, compared and written like any other. Literals coerce from `String`.
-/

namespace FluentFixtures

/-- Numerals denote code points, since there are some. -/
instance codePointLimit_neZero : @NeZero Nat Zero.ofOfNat0 0x110000 :=
  ⟨Nat.succ_ne_zero 0x10FFFF⟩

/-- A Unicode code point, surrogates included. -/
abbrev CodePoint := Fin 0x110000

abbrev Text := List CodePoint

namespace CodePoint

theorem char_lt (c : Char) : c.toNat < 0x110000 := by
  rcases c.valid with h | ⟨_, h⟩
  · exact Nat.lt_trans h (by decide)
  · exact h

def ofChar (c : Char) : CodePoint := ⟨c.toNat, char_lt c⟩

instance : Coe Char CodePoint := ⟨ofChar⟩

/-- The code point with a number below the bound of the code space. -/
def ofNat (n : Nat) : CodePoint := Fin.ofNat _ n

@[simp] theorem val_ofNat {n : Nat} (h : n < 0x110000) : (ofNat n).val = n :=
  Nat.mod_eq_of_lt h

@[simp] theorem ofNat_val (c : CodePoint) : ofNat c.val = c :=
  Fin.ext (val_ofNat c.isLt)

def ofByte (b : UInt8) : CodePoint := ofNat b.toNat

/-- The first halves of surrogate pairs. -/
def isHighSurrogate (c : CodePoint) : Bool := 0xD800 ≤ c.val && c.val < 0xDC00

/-- The second halves of surrogate pairs. -/
def isLowSurrogate (c : CodePoint) : Bool := 0xDC00 ≤ c.val && c.val < 0xE000

def isSurrogate (c : CodePoint) : Bool := 0xD800 ≤ c.val && c.val < 0xE000

/-- The supplementary code point that a high and a low surrogate stand for. -/
def joinSurrogates (high low : CodePoint) : CodePoint :=
  ofNat (0x10000 + (high.val - 0xD800) * 0x400 + (low.val - 0xDC00))

def isDigit (c : CodePoint) : Bool := 0x30 ≤ c.val && c.val ≤ 0x39

/-- What an ASCII digit counts. -/
def digitValue (c : CodePoint) : Nat := c.val - 0x30

def digit (n : Nat) : CodePoint := ofNat (0x30 + n)

/-- What an ASCII hexadecimal digit of either case counts. -/
def hexValue? (c : CodePoint) : Option Nat :=
  if c.isDigit then some c.digitValue
  else if 0x61 ≤ c.val && c.val ≤ 0x66 then some (c.val - 0x57)
  else if 0x41 ≤ c.val && c.val ≤ 0x46 then some (c.val - 0x37)
  else none

/-- The lower-case hexadecimal digit that counts `n`. -/
def hexDigit (n : Nat) : CodePoint := ofNat (if n < 10 then 0x30 + n else 0x57 + n)

end CodePoint

namespace Text

def ofString (s : String) : Text := s.toList.map CodePoint.ofChar

instance : Coe String Text := ⟨ofString⟩

/-- `width` lower-case hexadecimal digits of `n`, the most significant first. -/
def hex (width n : Nat) : Text :=
  (List.range width).reverse.map fun i => CodePoint.hexDigit (n / Nat.pow 16 i % 16)

/-- Puts the decimal digits of `n` in front of `acc`. -/
def pushDecimal (n : Nat) (acc : Text) : Text :=
  if n < 10 then CodePoint.digit n :: acc
  else pushDecimal (n / 10) (CodePoint.digit (n % 10) :: acc)
termination_by n

/-- The decimal digits of `n`, without leading zeros. -/
def decimal (n : Nat) : Text := pushDecimal n []

/-- The decimal digits of `n` after a minus sign if it is negative. -/
def integer : Int → Text
  | .ofNat n => decimal n
  | .negSucc n => 0x2D :: decimal (n + 1)

/-- The number that a run of ASCII digits writes. -/
def decimalValue (digits : Text) : Nat :=
  digits.foldl (fun n c => 10 * n + c.digitValue) 0

/-- The pieces between the separators; there is always one more than separators. -/
def splitOn (separator : CodePoint) : Text → List Text
  | [] => [[]]
  | c :: rest =>
    if c = separator then [] :: splitOn separator rest
    else match splitOn separator rest with
      | [] => [[c]]
      | piece :: pieces => (c :: piece) :: pieces

theorem splitOn_ne_nil (separator : CodePoint) (t : Text) : splitOn separator t ≠ [] := by
  cases t with
  | nil => simp [splitOn]
  | cons c rest =>
    simp only [splitOn]
    split
    · simp
    · split <;> simp

/-- The pieces with a separator between neighbours. -/
def joinWith (separator : Text) : List Text → Text
  | [] => []
  | [piece] => piece
  | piece :: pieces => piece ++ separator ++ joinWith separator pieces

/-- Comparison code point by code point, a proper beginning first. -/
def compare : Text → Text → Ordering
  | [], [] => .eq
  | [], _ :: _ => .lt
  | _ :: _, [] => .gt
  | a :: s, b :: t => (Ord.compare a.val b.val).then (compare s t)

end Text

end FluentFixtures
