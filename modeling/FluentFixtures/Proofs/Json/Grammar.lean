import FluentFixtures.Json.Token
import FluentFixtures.Proofs.Number.Nearest
import FluentFixtures.Proofs.Text.Decimal

/-!
# The grammar of documents

`Derives` says which texts a value, a list of items or a list of fields is
written as. A document is a value with blanks around. The grammar does not say
how a text is read: a text may be cut in any way that gives a derivation.
-/

namespace FluentFixtures

namespace Fields

/-- The last field of a name. -/
def last? (named : List (Text × Tree)) (name : Text) : Option (Text × Tree) :=
  named.reverse.find? fun field => field.1 = name

/-- The fields that names with values make: each name in its first place with its last value. -/
def gathered (named : List (Text × Tree)) : Fields :=
  (named.map Prod.fst).eraseDups.filterMap (last? named)

end Fields

namespace Json

/-- Whether a text is of spaces, tabs, line feeds and carriage returns. -/
def Blank (t : Text) : Prop := ∀ c ∈ t, c = 0x20 ∨ c = 0x09 ∨ c = 0x0A ∨ c = 0x0D

/-! ## Strings -/

/-- A part of a string: a code point, or a code point given by its number. -/
inductive StringPart where
  | char (c : CodePoint)
  | number (c : CodePoint)

/-- Whether a character is a hexadecimal digit, of either case, that counts a number. -/
def IsHexDigit (c : CodePoint) (n : ℕ) : Prop :=
  ("0123456789abcdef" : Text)[n]? = some c ∨ ("0123456789ABCDEF" : Text)[n]? = some c

/-- The letters that stand for a code point after a backslash. -/
def shortEscapes : List (CodePoint × CodePoint) :=
  [('"', 0x22), ('\\', 0x5C), ('/', 0x2F), ('b', 0x08), ('f', 0x0C), ('n', 0x0A), ('r', 0x0D),
    ('t', 0x09)]

inductive StringPart.Spelled : StringPart → Text → Prop where
  | plain {c : CodePoint} (hcontrol : 0x20 ≤ c.val) (hquote : c ≠ 0x22) (hbackslash : c ≠ 0x5C) :
    Spelled (.char c) [c]
  | short {e c : CodePoint} (h : (e, c) ∈ shortEscapes) : Spelled (.char c) [0x5C, e]
  | number {c d₁ d₂ d₃ d₄ : CodePoint} {n₁ n₂ n₃ n₄ : ℕ} (h₁ : IsHexDigit d₁ n₁)
    (h₂ : IsHexDigit d₂ n₂) (h₃ : IsHexDigit d₃ n₃) (h₄ : IsHexDigit d₄ n₄)
    (hc : c.val = n₁ * 4096 + n₂ * 256 + n₃ * 16 + n₄) :
    Spelled (.number c) [0x5C, 0x75, d₁, d₂, d₃, d₄]

inductive SpellsParts : List StringPart → Text → Prop where
  | nil : SpellsParts [] []
  | cons {part : StringPart} {parts : List StringPart} {s s' : Text} (h : part.Spelled s)
    (hrest : SpellsParts parts s') : SpellsParts (part :: parts) (s ++ s')

/-- What parts denote: the numbers of a high surrogate and of a low one directly after it are one
code point. -/
def content : List StringPart → Text
  | .number high :: .number low :: rest =>
    if high.isHighSurrogate && low.isLowSurrogate then
      CodePoint.joinSurrogates high low :: content rest
    else high :: content (.number low :: rest)
  | .number c :: rest => c :: content rest
  | .char c :: rest => c :: content rest
  | [] => []

inductive IsString : Text → Text → Prop where
  | quoted {parts : List StringPart} {s : Text} (h : SpellsParts parts s) :
    IsString (content parts) (0x22 :: (s ++ [0x22]))

/-! ## Numbers -/

namespace Numeral

/-- Whether the parts of the numeral are digits and its whole part has no zeros in front. -/
structure Canonical (n : Numeral) : Prop where
  whole : n.whole = [0x30] ∨ ∃ c rest, n.whole = c :: rest ∧ c ≠ 0x30
  wholeDigits : n.whole.Digits
  fractionDigits : n.fraction.Digits
  exponentDigits : ∀ e ∈ n.exponent, e.2 ≠ [] ∧ e.2.Digits

def signText (negative : Bool) : Text := if negative then [0x2D] else []

/-- The fraction of a numeral with its point. -/
def fractionText : Text → Text
  | [] => []
  | digit :: rest => 0x2E :: digit :: rest

/-- Whether a text is an exponent with its letter and sign. -/
inductive SpellsExponent : Option (Bool × Text) → Text → Prop where
  | none : SpellsExponent none []
  | some {letter : CodePoint} {negative : Bool} {sign digits : Text}
    (hletter : letter = 'e' ∨ letter = 'E')
    (hsign : (negative, sign) ∈ [(false, []), (false, [0x2B]), (true, [0x2D])]) :
    SpellsExponent (some (negative, digits)) (letter :: (sign ++ digits))

inductive Spelled (n : Numeral) : Text → Prop where
  | parts {e : Text} (hn : n.Canonical) (he : SpellsExponent n.exponent e) :
    Spelled n (signText n.negative ++ n.whole ++ fractionText n.fraction ++ e)

/-- The number that a numeral writes, but for its sign. -/
def magnitude (n : Numeral) : ℚ :=
  (Text.decimalValue n.whole + Text.decimalValue n.fraction / 10 ^ n.fraction.length) *
    10 ^ n.exponentValue

/-- Whether the numeral is written as a double. -/
def IsDouble (n : Numeral) : Prop := n.fraction ≠ [] ∨ n.exponent ≠ none

/-- What a numeral denotes: an integer of no more than 4300 digits, or the nearest double, which is
null if it overflows. -/
inductive Denotes (n : Numeral) : Scalar → Prop where
  | positive (hinteger : ¬ n.IsDouble) (hlength : n.whole.length ≤ 4300)
    (hsign : n.negative = false) : Denotes n (.int (Text.decimalValue n.whole))
  | negative (hinteger : ¬ n.IsDouble) (hlength : n.whole.length ≤ 4300)
    (hsign : n.negative = true) : Denotes n (.int (-Text.decimalValue n.whole))
  | double {rank : Fin 0x7FF0000000000000} (hdouble : n.IsDouble)
    (hrank : Double.IsNearest n.magnitude rank) : Denotes n (.double (.finite n.negative rank))
  | overflow {rank : ℕ} (hdouble : n.IsDouble) (hrank : Double.IsNearest n.magnitude rank)
    (hge : 0x7FF0000000000000 ≤ rank) : Denotes n .null

end Numeral

/-! ## Values -/

inductive Word : Scalar → Text → Prop where
  | null : Word .null "null"
  | true : Word (.bool true) "true"
  | false : Word (.bool false) "false"
  | nan : Word (.double .nan) "NaN"
  | infinity : Word (.double (.infinite false)) "Infinity"
  | negativeInfinity : Word (.double (.infinite true)) "-Infinity"

inductive IsName : Text → Text → Prop where
  | padded {name b s b' : Text} (hb : Blank b) (h : IsString name s) (hb' : Blank b') :
    IsName name (b ++ s ++ b')

/-- What the grammar derives texts from. -/
inductive Phrase where
  | value (t : Tree)
  /-- A value with blanks around. -/
  | element (t : Tree)
  /-- Elements with commas between them. -/
  | items (items : List Tree)
  /-- Names and elements, each pair with a colon, with commas between the pairs. -/
  | fields (named : List (Text × Tree))

inductive Derives : Phrase → Text → Prop where
  | word {v : Scalar} {s : Text} (h : Word v s) : Derives (.value (.leaf v)) s
  | number {n : Numeral} {v : Scalar} {s : Text} (h : n.Spelled s) (hv : n.Denotes v) :
    Derives (.value (.leaf v)) s
  | string {t s : Text} (h : IsString t s) : Derives (.value (.leaf (.str t))) s
  | emptyArray {b : Text} (hb : Blank b) : Derives (.value (.seq [])) (0x5B :: (b ++ [0x5D]))
  | array {items : List Tree} {s : Text} (h : Derives (.items items) s) :
    Derives (.value (.seq items)) (0x5B :: (s ++ [0x5D]))
  | emptyObject {b : Text} (hb : Blank b) :
    Derives (.value (.keyed [])) (0x7B :: (b ++ [0x7D]))
  | object {named : List (Text × Tree)} {s : Text} (h : Derives (.fields named) s) :
    Derives (.value (.keyed (Fields.gathered named))) (0x7B :: (s ++ [0x7D]))
  | element {t : Tree} {b s b' : Text} (hb : Blank b) (h : Derives (.value t) s) (hb' : Blank b') :
    Derives (.element t) (b ++ s ++ b')
  | item {t : Tree} {s : Text} (h : Derives (.element t) s) : Derives (.items [t]) s
  | nextItem {items : List Tree} {t : Tree} {s s' : Text} (h : Derives (.items items) s)
    (ht : Derives (.element t) s') : Derives (.items (items ++ [t])) (s ++ 0x2C :: s')
  | field {name : Text} {t : Tree} {s s' : Text} (hname : IsName name s)
    (h : Derives (.element t) s') : Derives (.fields [(name, t)]) (s ++ 0x3A :: s')
  | nextField {named : List (Text × Tree)} {name : Text} {t : Tree} {s s' s'' : Text}
    (h : Derives (.fields named) s) (hname : IsName name s') (ht : Derives (.element t) s'') :
    Derives (.fields (named ++ [(name, t)])) (s ++ 0x2C :: (s' ++ 0x3A :: s''))

end Json

end FluentFixtures
