import FluentFixtures.Number.Limit
import FluentFixtures.Number.Rounding
import FluentFixtures.Tree.Basic

/-!
# Tokens of a document

`Token.next` takes one token off a text. Strings give their content: two escapes
that spell the halves of a surrogate pair one after the other are one code
point. A numeral with a fraction or an exponent is a double, and null if it
overflows; any other is an integer, which has a limit on its digits.
-/

namespace FluentFixtures.Json

inductive Token where
  | beginArray
  | endArray
  | beginObject
  | endObject
  | colon
  | comma
  | str (content : Text)
  | scalar (value : Scalar)
  deriving Repr

inductive StringFault where
  | unterminated
  | controlCharacter
  | invalidEscape
  | invalidUnicodeEscape
  deriving DecidableEq, Repr

/-- Why no token could be taken: none begins here, a string is wrong at an offset from its quote,
or an integer has too many digits. -/
inductive TokenFault where
  | none
  | string (fault : StringFault) (offset : Nat)
  | integerTooLong (digits : Nat)
  deriving DecidableEq, Repr

/-- Space, tab, line feed and carriage return. -/
def isSpace (c : CodePoint) : Bool := c = ' ' || c = '\t' || c = '\n' || c = '\r'

/-! ## Strings -/

/-- The code point of an escape of one letter. -/
def shortEscape? (c : CodePoint) : Option CodePoint :=
  if c = '"' then some 0x22
  else if c = '\\' then some 0x5C
  else if c = '/' then some 0x2F
  else if c = 'b' then some 0x08
  else if c = 'f' then some 0x0C
  else if c = 'n' then some 0x0A
  else if c = 'r' then some 0x0D
  else if c = 't' then some 0x09
  else none

/-- The number of four hexadecimal digits. -/
def fourHex? (a b c d : CodePoint) : Option CodePoint := do
  let a ← a.hexValue?
  let b ← b.hexValue?
  let c ← c.hexValue?
  let d ← d.hexValue?
  some (CodePoint.ofNat (((a * 16 + b) * 16 + c) * 16 + d))

/-- Adds an escaped code point to reversed content; after an escaped high surrogate a low one
completes the pair. -/
def pushEscaped (afterHigh : Bool) (c : CodePoint) (done : Text) : Text :=
  match done with
  | high :: rest =>
    if afterHigh && c.isLowSurrogate then CodePoint.joinSurrogates high c :: rest else c :: done
  | [] => [c]

/-- Whether an escaped code point may be completed by the next one. -/
def awaitsLow (afterHigh : Bool) (c : CodePoint) : Bool :=
  c.isHighSurrogate && !(afterHigh && c.isLowSurrogate)

/-- Reads the rest of a string whose opening quote is `offset` code points back, with its content
so far in reverse. An escape by number must not end the text. -/
def stringRest (offset : Nat) (afterHigh : Bool) (done : Text) :
    Text → Except TokenFault (Text × Nat × Text)
  | [] => .error (.string .unterminated 0)
  | c :: rest =>
    if c = '"' then .ok (done.reverse, offset + 1, rest)
    else if c = '\\' then
      match rest with
      | [] => .error (.string .unterminated 0)
      | e :: rest =>
        if e = 'u' then
          match rest with
          | h₁ :: h₂ :: h₃ :: h₄ :: next :: rest =>
            match fourHex? h₁ h₂ h₃ h₄ with
            | some c =>
              stringRest (offset + 6) (awaitsLow afterHigh c) (pushEscaped afterHigh c done)
                (next :: rest)
            | none => .error (.string .invalidUnicodeEscape (offset + 1))
          | _ => .error (.string .invalidUnicodeEscape (offset + 1))
        else match shortEscape? e with
          | some c => stringRest (offset + 2) false (c :: done) rest
          | none => .error (.string .invalidEscape offset)
    else if c.val < 0x20 then .error (.string .controlCharacter offset)
    else stringRest (offset + 1) false (c :: done) rest

theorem stringRest_length {offset : Nat} {afterHigh : Bool} {done t content rest : Text}
    {size : Nat} (h : stringRest offset afterHigh done t = .ok (content, size, rest)) :
    rest.length < t.length := by
  fun_induction stringRest offset afterHigh done t <;> simp_all <;> omega

/-! ## Numerals -/

/-- The digits of a numeral: its whole part, its fraction and its exponent. -/
structure Numeral where
  negative : Bool
  whole : Text
  fraction : Text
  exponent : Option (Bool × Text)
  deriving DecidableEq, Repr

def digits (t : Text) : Text × Text :=
  (t.takeWhile CodePoint.isDigit, t.dropWhile CodePoint.isDigit)

def minus : Text → Bool × Text
  | c :: rest => if c = '-' then (true, rest) else (false, c :: rest)
  | [] => (false, [])

/-- A zero, or a run of digits that starts with another one. -/
def whole? : Text → Option (Text × Text)
  | c :: rest =>
    if c = '0' then some ([c], rest)
    else if c.isDigit then some (digits (c :: rest))
    else none
  | [] => none

/-- A point and at least one digit; without a digit the point is no part of the numeral. -/
def fraction (t : Text) : Text × Text :=
  match t with
  | c :: rest =>
    if c = '.' then
      match digits rest with
      | ([], _) => ([], t)
      | found => found
    else ([], t)
  | [] => ([], t)

/-- An exponent with at least one digit; without one, its letter is no part of the numeral. -/
def exponent (t : Text) : Option (Bool × Text) × Text :=
  match t with
  | c :: rest =>
    if c = 'e' || c = 'E' then
      let (negative, unsigned) :=
        match rest with
        | s :: rest' =>
          if s = '-' then (true, rest') else if s = '+' then (false, rest') else (false, rest)
        | [] => (false, rest)
      match digits unsigned with
      | ([], _) => (none, t)
      | (found, rest) => (some (negative, found), rest)
    else (none, t)
  | [] => (none, t)

/-- The longest numeral at the start of a text. -/
def numeral? (t : Text) : Option (Numeral × Text) :=
  let (negative, t) := minus t
  match whole? t with
  | none => none
  | some (whole, t) =>
    let (fraction, t) := fraction t
    let (exponent, t) := exponent t
    some (⟨negative, whole, fraction, exponent⟩, t)

theorem digits_length (t : Text) : (digits t).2.length ≤ t.length :=
  (List.dropWhile_sublist CodePoint.isDigit).length_le

theorem fraction_length (t : Text) : (fraction t).2.length ≤ t.length := by
  unfold fraction
  split
  · next c rest =>
    have := digits_length rest
    split
    · split
      · simp
      · simp only [List.length_cons]; omega
    · simp
  · simp

theorem exponent_length (t : Text) : (exponent t).2.length ≤ t.length := by
  unfold exponent
  split
  · next c rest =>
    split
    · split
      next negative unsigned heq =>
      have hle : unsigned.length ≤ rest.length := by
        split at heq
        · split at heq
          · cases heq; simp
          · split at heq <;> cases heq <;> simp
        · cases heq; simp
      have := digits_length unsigned
      split
      · simp
      · next hfound =>
        simp only [hfound] at this
        simp only [List.length_cons]
        omega
    · simp
  · simp

theorem numeral?_length {t rest : Text} {n : Numeral} (h : numeral? t = some (n, rest)) :
    rest.length < t.length := by
  have hminus : (minus t).2.length ≤ t.length := by
    unfold minus
    split
    · split <;> simp
    · simp
  unfold numeral? at h
  simp only at h
  split at h
  · cases h
  · next whole t' hwhole =>
    have hlt : t'.length < (minus t).2.length := by
      unfold whole? at hwhole
      split at hwhole
      · next c r heq =>
        rw [heq]
        split at hwhole
        · cases hwhole; simp
        · split at hwhole
          · next hdigit =>
            injection hwhole with hwhole
            injection hwhole with _ htail
            rw [← htail, List.dropWhile_cons_of_pos hdigit]
            exact Nat.lt_succ_of_le (digits_length r)
          · cases hwhole
      · cases hwhole
    injection h with h
    injection h with _ hrest
    have h₁ := fraction_length t'
    have h₂ := exponent_length (fraction t').2
    rw [← hrest]
    omega

def Numeral.exponentValue (n : Numeral) : Int :=
  match n.exponent with
  | none => 0
  | some (true, e) => -(Text.decimalValue e : Int)
  | some (false, e) => Text.decimalValue e

/-- The double nearest to a numeral. -/
def Numeral.double (n : Numeral) : Double :=
  Double.ofDecimal n.negative (Text.decimalValue (n.whole ++ n.fraction))
    (n.exponentValue - n.fraction.length)

/-- What a numeral denotes. -/
def Numeral.value (n : Numeral) : Except TokenFault Scalar :=
  if n.fraction.isEmpty && n.exponent.isNone then
    if n.whole.length > digitLimit then .error (.integerTooLong n.whole.length)
    else
      let magnitude : Int := Text.decimalValue n.whole
      .ok (.int (if n.negative then -magnitude else magnitude))
  else if n.double.isFinite then .ok (.double n.double)
  else .ok .null

/-! ## Tokens -/

/-- The words that are values. -/
def words : List (Text × Scalar) :=
  [("null", .null), ("true", .bool true), ("false", .bool false), ("NaN", .double .nan),
    ("Infinity", .double (.infinite false)), ("-Infinity", .double (.infinite true))]

def word? (t : Text) : Option (Text × Scalar) := words.find? fun word => word.1.isPrefixOf t

/-- A word or a numeral. -/
def scalarToken (t : Text) : Except TokenFault (Token × Nat × Text) :=
  match word? t with
  | some (word, value) => .ok (.scalar value, word.length, t.drop word.length)
  | none =>
    match numeral? t with
    | none => .error .none
    | some (n, rest) =>
      match n.value with
      | .error fault => .error fault
      | .ok value => .ok (.scalar value, t.length - rest.length, rest)

/-- The token that starts with `c`, its length, and the rest of the text. -/
def Token.next (c : CodePoint) (t : Text) : Except TokenFault (Token × Nat × Text) :=
  if c = '[' then .ok (.beginArray, 1, t)
  else if c = ']' then .ok (.endArray, 1, t)
  else if c = '{' then .ok (.beginObject, 1, t)
  else if c = '}' then .ok (.endObject, 1, t)
  else if c = ':' then .ok (.colon, 1, t)
  else if c = ',' then .ok (.comma, 1, t)
  else if c = '"' then
    match stringRest 1 false [] t with
    | .error fault => .error fault
    | .ok (content, size, rest) => .ok (.str content, size, rest)
  else scalarToken (c :: t)

theorem words_ne_nil : ∀ word ∈ words, 0 < word.1.length := by decide

theorem scalarToken_length {c : CodePoint} {t rest : Text} {token : Token} {size : Nat}
    (h : scalarToken (c :: t) = .ok (token, size, rest)) : rest.length ≤ t.length := by
  unfold scalarToken at h
  split at h
  · next word value hword =>
    cases h
    have := words_ne_nil _ (List.mem_of_find?_eq_some hword)
    simp only [List.length_drop, List.length_cons] at *
    omega
  · split at h
    · cases h
    · next n r hn =>
      have := numeral?_length hn
      split at h
      · cases h
      · cases h
        simpa using Nat.le_of_lt_succ this

theorem Token.next_length {c : CodePoint} {t rest : Text} {token : Token} {size : Nat}
    (h : Token.next c t = .ok (token, size, rest)) : rest.length ≤ t.length := by
  unfold Token.next at h
  iterate 6 (split at h; · cases h; exact Nat.le_refl _)
  split at h
  · split at h
    · cases h
    · next hs => cases h; exact Nat.le_of_lt (stringRest_length hs)
  · exact scalarToken_length h

end FluentFixtures.Json
