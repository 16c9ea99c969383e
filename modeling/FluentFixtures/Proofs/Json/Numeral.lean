import FluentFixtures.Proofs.Json.Grammar
import Mathlib.Data.List.TakeWhile

/-!
# Reading numerals

The longest numeral at the start of a text is a numeral of the grammar,
`spelled_of_numeral?`, and every numeral of the grammar is the longest one where
what follows continues no numeral: `numeral?_of_spelled`. What it denotes is its
value: `Numeral.value_eq_ok_iff`. `Numeral.text` prints a numeral.
-/

namespace FluentFixtures.Json

/-- Whether no digit comes next. -/
def NoDigit (t : Text) : Prop := ∀ c ∈ t.head?, c.isDigit = false

/-- Whether what comes next continues no numeral. -/
def EndsNumeral (t : Text) : Prop := ∀ c ∈ t.head?, c.isDigit = false ∧ c ≠ '.' ∧ c ≠ 'e' ∧ c ≠ 'E'

theorem EndsNumeral.noDigit {t : Text} (h : EndsNumeral t) : NoDigit t := fun c hc => (h c hc).1

theorem digits_append {s t : Text} (hs : s.Digits) (ht : NoDigit t) : digits (s ++ t) = (s, t) := by
  rw [digits, List.takeWhile_append_of_pos hs, List.dropWhile_append_of_pos hs]
  cases t with
  | nil => simp
  | cons c rest =>
    have hc : c.isDigit = false := ht c rfl
    simp [hc]

theorem digits_eq {t found rest : Text} (h : digits t = (found, rest)) :
    t = found ++ rest ∧ found.Digits := by
  obtain ⟨rfl, rfl⟩ := Prod.mk.inj h
  exact ⟨List.takeWhile_append_dropWhile.symm, fun _ hc => List.mem_takeWhile_imp hc⟩

/-! ## The parts -/

open Numeral (SpellsExponent fractionText signText)

theorem minus_eq {t rest : Text} {negative : Bool} (h : minus t = (negative, rest)) :
    t = signText negative ++ rest := by
  unfold minus at h
  split at h
  · next c more =>
    split at h
    · next hminus =>
      cases h
      rw [hminus]
      rfl
    · cases h
      rfl
  · cases h
    rfl

theorem whole?_append {s t : Text} (hs : s.Digits)
    (hhead : s = [0x30] ∨ ∃ c rest, s = c :: rest ∧ c ≠ 0x30) (ht : NoDigit t) :
    whole? (s ++ t) = some (s, t) := by
  rcases hhead with rfl | ⟨c, rest, rfl, hc⟩
  · rfl
  · have hdigit : c.isDigit = true := hs c List.mem_cons_self
    have hzero : ¬ c = '0' := hc
    rw [List.cons_append, whole?, if_neg hzero, if_pos hdigit, ← List.cons_append,
      digits_append hs ht]

theorem whole?_eq {t whole rest : Text} (h : whole? t = some (whole, rest)) :
    t = whole ++ rest ∧ whole.Digits ∧
      (whole = [0x30] ∨ ∃ c more, whole = c :: more ∧ c ≠ 0x30) := by
  unfold whole? at h
  split at h
  · next c more =>
    split at h
    · next hzero =>
      obtain ⟨rfl, rfl⟩ := Prod.mk.inj (Option.some.inj h)
      rw [hzero]
      exact ⟨rfl, List.forall_mem_singleton.mpr rfl, .inl rfl⟩
    · next hzero =>
      split at h
      · next hdigit =>
        obtain ⟨htext, hdigits⟩ := digits_eq (Option.some.inj h)
        refine ⟨htext, hdigits, .inr ⟨c, more.takeWhile CodePoint.isDigit, ?_, hzero⟩⟩
        obtain ⟨rfl, -⟩ := Prod.mk.inj (Option.some.inj h)
        rw [List.takeWhile_cons_of_pos hdigit]
      · cases h
  · cases h

theorem fraction_append {s t : Text} (hs : s.Digits) (ht : NoDigit t)
    (hpoint : ∀ c ∈ t.head?, c ≠ '.') : fraction (fractionText s ++ t) = (s, t) := by
  cases s with
  | nil =>
    cases t with
    | nil => rfl
    | cons c rest => rw [fractionText, List.nil_append, fraction, if_neg (hpoint c rfl)]
  | cons digit rest =>
    have hdigits : digits ((digit :: rest) ++ t) = (digit :: rest, t) := digits_append hs ht
    have hpoint : (0x2E : CodePoint) = '.' := rfl
    rw [fractionText, List.cons_append, fraction, if_pos hpoint, hdigits]

theorem fraction_eq {t found rest : Text} (h : fraction t = (found, rest)) :
    t = fractionText found ++ rest ∧ found.Digits := by
  unfold fraction at h
  split at h
  · next c more =>
    split at h
    · next hpoint =>
      split at h
      · cases h
        exact ⟨rfl, nofun⟩
      · next other hnone =>
        obtain ⟨htext, hdigits⟩ := digits_eq h
        cases found with
        | nil => exact absurd h (hnone rest)
        | cons digit found =>
          rw [hpoint, htext]
          exact ⟨rfl, hdigits⟩
    · cases h
      exact ⟨rfl, nofun⟩
  · cases h
    exact ⟨rfl, nofun⟩

theorem not_sign_of_isDigit {c : CodePoint} (h : c.isDigit = true) : c ≠ '-' ∧ c ≠ '+' := by
  constructor <;> rintro rfl <;> cases h

theorem exponent_append {e : Option (Bool × Text)} {s t : Text} (hs : SpellsExponent e s)
    (he : ∀ found ∈ e, found.2 ≠ [] ∧ found.2.Digits) (ht : EndsNumeral t) :
    exponent (s ++ t) = (e, t) := by
  cases hs with
  | none =>
    cases t with
    | nil => rfl
    | cons c rest =>
      obtain ⟨-, -, hlower, hupper⟩ := ht c rfl
      simp [exponent, hlower, hupper]
  | @some letter negative sign found hletter hsign =>
    obtain ⟨hne, hfound⟩ := he _ rfl
    have hdigits : digits (found ++ t) = (found, t) := digits_append hfound ht.noDigit
    have hletter : (letter = 'e' || letter = 'E') = true := by simpa using hletter
    cases found with
    | nil => exact absurd rfl hne
    | cons digit rest =>
      obtain ⟨hminus, hplus⟩ := not_sign_of_isDigit (hfound digit List.mem_cons_self)
      simp only [List.mem_cons, Prod.mk.injEq, List.not_mem_nil, or_false] at hsign
      rcases hsign with ⟨rfl, rfl⟩ | ⟨rfl, rfl⟩ | ⟨rfl, rfl⟩
      · show exponent (letter :: digit :: (rest ++ t)) = _
        rw [List.cons_append] at hdigits
        simp only [exponent, if_pos hletter, if_neg hminus, if_neg hplus, hdigits]
      · show exponent (letter :: 0x2B :: (digit :: rest ++ t)) = _
        have hminus : ¬ (0x2B : CodePoint) = '-' := by decide
        have hplus : (0x2B : CodePoint) = '+' := rfl
        simp only [exponent, if_pos hletter, if_neg hminus, if_pos hplus, hdigits]
      · show exponent (letter :: 0x2D :: (digit :: rest ++ t)) = _
        have hminus : (0x2D : CodePoint) = '-' := rfl
        simp only [exponent, if_pos hletter, if_pos hminus, hdigits]

theorem exponent_eq {t rest : Text} {e : Option (Bool × Text)} (h : exponent t = (e, rest)) :
    ∃ s, t = s ++ rest ∧ SpellsExponent e s ∧ ∀ found ∈ e, found.2 ≠ [] ∧ found.2.Digits := by
  have hnone : ∃ s, t = s ++ t ∧ SpellsExponent none s ∧
      ∀ found ∈ (none : Option (Bool × Text)), found.2 ≠ [] ∧ found.2.Digits :=
    ⟨[], rfl, .none, nofun⟩
  unfold exponent at h
  split at h
  · next letter more =>
    split at h
    · next hletter =>
      split at h
      next negative unsigned hunsigned =>
      have hsign : ∃ sign, more = sign ++ unsigned ∧
          (negative, sign) ∈ [(false, []), (false, [0x2B]), (true, [0x2D])] := by
        split at hunsigned
        · next c rest =>
          split_ifs at hunsigned with hminus hplus <;> cases hunsigned
          · exact ⟨[0x2D], by rw [hminus]; rfl, by simp⟩
          · exact ⟨[0x2B], by rw [hplus]; rfl, by simp⟩
          · exact ⟨[], rfl, by simp⟩
        · cases hunsigned
          exact ⟨[], rfl, by simp⟩
      obtain ⟨sign, rfl, hsign⟩ := hsign
      split at h
      · cases h
        exact hnone
      · next found rest' hsome hdigits =>
        cases h
        obtain ⟨htext, hall⟩ := digits_eq hdigits
        refine ⟨letter :: (sign ++ found), ?_, .some (by simpa using hletter) hsign, ?_⟩
        · rw [htext, List.cons_append, List.append_assoc]
        · rintro found ⟨rfl⟩
          exact ⟨hsome, hall⟩
    · cases h
      exact hnone
  · cases h
    exact hnone

/-! ## The whole numeral -/

section Spelled

variable {n : Numeral} {s t : Text}

theorem noDigit_exponent {e : Option (Bool × Text)} (hs : SpellsExponent e s)
    (ht : EndsNumeral t) : NoDigit (s ++ t) ∧ ∀ c ∈ (s ++ t).head?, c ≠ '.' := by
  cases hs with
  | none => exact ⟨ht.noDigit, fun c hc => (ht c hc).2.1⟩
  | some hletter hsign =>
    constructor <;> rintro c ⟨rfl⟩ <;> rcases hletter with rfl | rfl
    · rfl
    · rfl
    · decide
    · decide

theorem noDigit_fraction (f : Text) (ht : NoDigit t) : NoDigit (fractionText f ++ t) := by
  cases f with
  | nil => exact ht
  | cons digit rest =>
    rintro c ⟨rfl⟩
    rfl

theorem Numeral.Canonical.whole_eq_cons (hn : n.Canonical) :
    ∃ c rest, n.whole = c :: rest ∧ c.isDigit = true := by
  rcases hn.whole with h | ⟨c, rest, h, -⟩
  · exact ⟨_, _, h, rfl⟩
  · exact ⟨c, rest, h, hn.wholeDigits c (by simp [h])⟩

theorem minus_append (hn : n.Canonical) (t : Text) :
    minus (signText n.negative ++ (n.whole ++ t)) = (n.negative, n.whole ++ t) := by
  obtain ⟨c, rest, hwhole, hc⟩ := hn.whole_eq_cons
  obtain ⟨hminus, -⟩ := not_sign_of_isDigit hc
  rw [hwhole]
  cases n.negative with
  | true => rfl
  | false => simp [signText, minus, hminus]

/-- A numeral is the longest one where what follows continues no numeral. -/
theorem numeral?_of_spelled (h : n.Spelled s) (ht : EndsNumeral t) :
    numeral? (s ++ t) = some (n, t) := by
  obtain ⟨hn, he⟩ := h
  obtain ⟨hnone, hpoint⟩ := noDigit_exponent he ht
  have hminus := minus_append hn
  have hwhole := whole?_append hn.wholeDigits hn.whole (noDigit_fraction n.fraction hnone)
  have hfraction := fraction_append hn.fractionDigits hnone hpoint
  have hexponent := exponent_append he hn.exponentDigits ht
  simp only [List.append_assoc, numeral?, hminus, hwhole, hfraction, hexponent]

theorem spelled_of_numeral? {rest : Text} (h : numeral? t = some (n, rest)) :
    ∃ s, t = s ++ rest ∧ n.Spelled s := by
  unfold numeral? at h
  split at h
  next negative unsigned hminus =>
  split at h
  · cases h
  · next whole more hwhole =>
    split at h
    next fraction more' hfraction =>
    split at h
    next exponent more'' hexponent =>
    cases h
    obtain ⟨rfl, hwholeDigits, hhead⟩ := whole?_eq hwhole
    obtain ⟨rfl, hfractionDigits⟩ := fraction_eq hfraction
    obtain ⟨e, rfl, he, hexponentDigits⟩ := exponent_eq hexponent
    refine ⟨_, ?_, .parts ⟨hhead, hwholeDigits, hfractionDigits, hexponentDigits⟩ he⟩
    rw [minus_eq hminus]
    simp only [List.append_assoc]

end Spelled

/-! ## Words and numerals -/

theorem words_begin :
    ∀ word ∈ words, 2 ≤ word.1.length ∧ (word.1.take 2).any CodePoint.isDigit = false := by
  decide

/-- A text with a digit at one of its first two places starts with no word. -/
theorem word?_eq_none {t : Text} {c : CodePoint} (hc : c ∈ t.take 2) (hdigit : c.isDigit = true) :
    word? t = none := by
  refine List.find?_eq_none.mpr ?_
  intro word hword hbegins
  obtain ⟨rest, rfl⟩ := List.isPrefixOf_iff_prefix.mp hbegins
  obtain ⟨hlength, hbegin⟩ := words_begin word hword
  rw [List.take_append_of_le_length hlength] at hc
  exact List.any_eq_false.mp hbegin c hc hdigit

/-- Whether a numeral can begin with the character. -/
def BeginsNumeral (c : CodePoint) : Prop := c.isDigit = true ∨ c = '-'

theorem BeginsNumeral.ne {c d : CodePoint} (h : BeginsNumeral c) (hdigit : d.isDigit = false)
    (hminus : d ≠ '-') : c ≠ d := by
  rintro rfl
  rcases h with h | h
  · rw [hdigit] at h
    cases h
  · exact hminus h

theorem BeginsNumeral.isSpace {c : CodePoint} (h : BeginsNumeral c) : isSpace c = false := by
  have hspace : c ≠ ' ' := h.ne rfl (by decide)
  have htab : c ≠ '\t' := h.ne rfl (by decide)
  have hline : c ≠ '\n' := h.ne rfl (by decide)
  have hreturn : c ≠ '\r' := h.ne rfl (by decide)
  simp [Json.isSpace, hspace, htab, hline, hreturn]

/-- Numerals are told from the other tokens by their first character. -/
theorem Token.next_eq_scalarToken {c : CodePoint} (h : BeginsNumeral c) (t : Text) :
    Token.next c t = scalarToken (c :: t) := by
  have hne (d : CodePoint) (hdigit : d.isDigit = false) (hminus : d ≠ '-') : ¬ c = d :=
    h.ne hdigit hminus
  simp only [Token.next, if_neg (hne '[' rfl (by decide)), if_neg (hne ']' rfl (by decide)),
    if_neg (hne '{' rfl (by decide)), if_neg (hne '}' rfl (by decide)),
    if_neg (hne ':' rfl (by decide)), if_neg (hne ',' rfl (by decide)),
    if_neg (hne '"' rfl (by decide))]

section Next

variable {n : Numeral} {v : Scalar} {s t rest : Text}

/-- A numeral begins with a digit, maybe after a minus sign. -/
theorem Numeral.Spelled.eq_cons (h : n.Spelled s) :
    ∃ c rest, s = c :: rest ∧ BeginsNumeral c ∧ ∃ d ∈ s.take 2, d.isDigit = true := by
  obtain ⟨hn, -⟩ := h
  obtain ⟨c, rest, hwhole, hc⟩ := hn.whole_eq_cons
  simp only [hwhole]
  cases n.negative with
  | true => exact ⟨_, _, rfl, .inr rfl, c, by simp [signText], hc⟩
  | false => exact ⟨c, _, rfl, .inl hc, c, by simp [signText], hc⟩

theorem Numeral.Spelled.wholeDigits (h : n.Spelled s) : n.whole.Digits := by
  obtain ⟨hn, -⟩ := h
  exact hn.wholeDigits

theorem Token.next_spelled (h : n.Spelled s) (hv : n.value = .ok v) (ht : EndsNumeral t) :
    ∃ c rest, s ++ t = c :: rest ∧ isSpace c = false ∧
      Token.next c rest = .ok (.scalar v, s.length, t) := by
  obtain ⟨c, rest, htext, hfirst, d, hd, hdigit⟩ := h.eq_cons
  have hcons : s ++ t = c :: (rest ++ t) := by rw [htext, List.cons_append]
  have hword : word? (s ++ t) = none := by
    refine word?_eq_none ?_ hdigit
    rw [List.take_append]
    exact List.mem_append_left _ hd
  refine ⟨c, rest ++ t, hcons, hfirst.isSpace, ?_⟩
  rw [Token.next_eq_scalarToken hfirst, ← hcons, scalarToken, hword, numeral?_of_spelled h ht]
  simp only [hv, List.length_append, Nat.add_sub_cancel]

theorem Token.next_word (h : Word v s) (t : Text) :
    ∃ c rest, s ++ t = c :: rest ∧ isSpace c = false ∧
      Token.next c rest = .ok (.scalar v, s.length, t) := by
  cases h <;> exact ⟨_, _, rfl, rfl, rfl⟩

theorem word_of_mem_words (h : (s, v) ∈ words) : Word v s := by
  simp only [words, List.mem_cons, Prod.mk.injEq, List.not_mem_nil, or_false] at h
  rcases h with ⟨rfl, rfl⟩ | ⟨rfl, rfl⟩ | ⟨rfl, rfl⟩ | ⟨rfl, rfl⟩ | ⟨rfl, rfl⟩ | ⟨rfl, rfl⟩
  · exact .null
  · exact .true
  · exact .false
  · exact .nan
  · exact .infinity
  · exact .negativeInfinity

theorem word_of_word? (h : word? t = some (s, v)) : Word v s ∧ t = s ++ t.drop s.length := by
  have hbegins := List.find?_some h
  obtain ⟨rest, rfl⟩ := List.isPrefixOf_iff_prefix.mp hbegins
  refine ⟨word_of_mem_words (List.mem_of_find?_eq_some h), ?_⟩
  rw [List.drop_left]

theorem scalarToken_eq {token : Token} {size : Nat}
    (h : scalarToken t = .ok (token, size, rest)) : ∃ s v, t = s ++ rest ∧ token = .scalar v ∧
      (Word v s ∨ ∃ n : Numeral, n.Spelled s ∧ n.value = .ok v) := by
  unfold scalarToken at h
  split at h
  · next word value hword =>
    cases h
    obtain ⟨hvalue, htext⟩ := word_of_word? hword
    exact ⟨word, value, htext, rfl, .inl hvalue⟩
  · split at h
    · cases h
    · next n more hn =>
      obtain ⟨s, rfl, hs⟩ := spelled_of_numeral? hn
      split at h
      · cases h
      · next value hvalue =>
        cases h
        exact ⟨s, value, rfl, rfl, .inr ⟨n, hs, hvalue⟩⟩

end Next

/-! ## What a numeral denotes -/

namespace Numeral

variable {n : Numeral} {v : Scalar}

theorem isDouble_iff : n.IsDouble ↔ ¬ (n.fraction.isEmpty && n.exponent.isNone) = true := by
  rw [IsDouble, Bool.and_eq_true, List.isEmpty_iff, Option.isNone_iff_eq_none, not_and_or]

/-- The digits of a numeral without its point, with the exponent for that. -/
theorem magnitude_eq (n : Numeral) : n.magnitude =
    (Text.decimalValue (n.whole ++ n.fraction) : ℚ) *
      10 ^ (n.exponentValue - n.fraction.length) := by
  have hten : (10 : ℚ) ≠ 0 := by norm_num
  rw [magnitude, Text.decimalValue_append, zpow_sub₀ hten, zpow_natCast]
  push_cast
  field_simp

theorem exists_rank (n : Numeral) :
    ∃ rank, Double.IsNearest n.magnitude rank ∧ n.double = .ofRank n.negative rank := by
  rw [magnitude_eq]
  exact Double.ofDecimal_eq_ofRank n.negative _ _

theorem value_integer (h : ¬ n.IsDouble) : n.value = .ok v ↔ n.whole.length ≤ 4300 ∧
    v = .int (if n.negative then -Text.decimalValue n.whole else Text.decimalValue n.whole) := by
  have hinteger := not_not.mp (isDouble_iff.not.mp h)
  have hlimit : digitLimit = 4300 := rfl
  rw [value, if_pos hinteger, hlimit]
  split
  · next hlong =>
    constructor
    · nofun
    · exact fun hv => absurd hv.1 (by omega)
  · next hshort =>
    rw [Except.ok.injEq]
    exact ⟨fun hv => ⟨by omega, hv.symm⟩, fun hv => hv.2.symm⟩

theorem value_double (h : n.IsDouble) :
    n.value = if n.double.isFinite then .ok (.double n.double) else .ok .null := by
  rw [value, if_neg (isDouble_iff.mp h)]

theorem value_eq_ok_iff : n.value = .ok v ↔ n.Denotes v := by
  by_cases hdouble : n.IsDouble
  · obtain ⟨rank, hrank, hround⟩ := n.exists_rank
    rw [value_double hdouble, hround]
    by_cases hlt : rank < 0x7FF0000000000000
    · rw [Double.ofRank_of_lt n.negative hlt, Double.isFinite, if_pos rfl, Except.ok.injEq]
      constructor
      · rintro rfl
        exact .double hdouble hrank
      · rintro (⟨hinteger⟩ | ⟨hinteger⟩ | ⟨-, hrank'⟩ | ⟨-, hrank', hge⟩)
        · exact absurd hdouble hinteger
        · exact absurd hdouble hinteger
        · obtain rfl := hrank.unique hrank'
          rfl
        · obtain rfl := hrank.unique hrank'
          omega
    · have hinfinite : (Double.infinite n.negative).isFinite = false := rfl
      rw [Double.ofRank_of_ge n.negative (not_lt.mp hlt), hinfinite, if_neg Bool.false_ne_true,
        Except.ok.injEq]
      constructor
      · rintro rfl
        exact .overflow hdouble hrank (not_lt.mp hlt)
      · rintro (⟨hinteger⟩ | ⟨hinteger⟩ | ⟨-, hrank'⟩ | -)
        · exact absurd hdouble hinteger
        · exact absurd hdouble hinteger
        · obtain rfl := hrank.unique hrank'
          exact absurd (Fin.isLt _) hlt
        · rfl
  · rw [value_integer hdouble]
    constructor
    · rintro ⟨hlength, rfl⟩
      cases hsign : n.negative with
      | true => exact .negative hdouble hlength hsign
      | false => exact .positive hdouble hlength hsign
    · rintro (⟨-, hlength, hsign⟩ | ⟨-, hlength, hsign⟩ | ⟨h, -⟩ | ⟨h, -, -⟩)
      · exact ⟨hlength, by rw [hsign]; rfl⟩
      · exact ⟨hlength, by rw [hsign]; rfl⟩
      · exact absurd h hdouble
      · exact absurd h hdouble

end Numeral

/-! ## Numerals in print -/

namespace Numeral

/-- The exponent of a numeral with its letter and sign. -/
def exponentText : Option (Bool × Text) → Text
  | none => []
  | some (negative, digits) => 0x65 :: (if negative then 0x2D else 0x2B) :: digits

/-- The numeral in print. -/
def text (n : Numeral) : Text :=
  signText n.negative ++ n.whole ++ fractionText n.fraction ++ exponentText n.exponent

theorem spellsExponent_exponentText (e : Option (Bool × Text)) :
    SpellsExponent e (exponentText e) := by
  rcases e with - | ⟨negative, digits⟩
  · exact .none
  · cases negative with
    | true =>
      have hminus : SpellsExponent (some (true, digits)) (0x65 :: ([0x2D] ++ digits)) :=
        .some (.inl rfl) (by simp)
      exact hminus
    | false =>
      have hplus : SpellsExponent (some (false, digits)) (0x65 :: ([0x2B] ++ digits)) :=
        .some (.inl rfl) (by simp)
      exact hplus

variable {n : Numeral} (hn : n.Canonical)

include hn

theorem spelled_text : n.Spelled n.text := .parts hn (spellsExponent_exponentText n.exponent)

theorem forall_mem_text {P : CodePoint → Prop} (hdigit : ∀ c : CodePoint, c.isDigit = true → P c)
    (hmark : P 0x2D ∧ P 0x2B ∧ P 0x2E ∧ P 0x65) : ∀ c ∈ n.text, P c := by
  obtain ⟨hminus, hplus, hpoint, hletter⟩ := hmark
  have hdigits {s : Text} (hs : s.Digits) : ∀ c ∈ s, P c := fun c hc => hdigit c (hs c hc)
  simp only [text, List.forall_mem_append]
  refine ⟨⟨⟨?_, hdigits hn.wholeDigits⟩, ?_⟩, ?_⟩
  · cases n.negative with
    | true => exact List.forall_mem_singleton.mpr hminus
    | false => exact List.forall_mem_nil _
  · have hfraction := hdigits hn.fractionDigits
    cases hcase : n.fraction with
    | nil => exact List.forall_mem_nil _
    | cons digit rest =>
      rw [hcase] at hfraction
      exact List.forall_mem_cons.mpr ⟨hpoint, hfraction⟩
  · cases hcase : n.exponent with
    | none => exact List.forall_mem_nil _
    | some e =>
      obtain ⟨negative, digits⟩ := e
      have hexponent := hdigits (hn.exponentDigits _ hcase).2
      refine List.forall_mem_cons.mpr ⟨hletter, List.forall_mem_cons.mpr ⟨?_, hexponent⟩⟩
      cases negative with
      | true => exact hminus
      | false => exact hplus

theorem isSurrogate_text : ∀ c ∈ n.text, c.isSurrogate = false := by
  refine forall_mem_text hn ?_ ⟨rfl, rfl, rfl, rfl⟩
  intro c hdigit
  simp only [CodePoint.isDigit, Bool.and_eq_true, decide_eq_true_eq] at hdigit
  simp only [CodePoint.isSurrogate, Bool.and_eq_false_iff, decide_eq_false_iff_not]
  omega

end Numeral

end FluentFixtures.Json
