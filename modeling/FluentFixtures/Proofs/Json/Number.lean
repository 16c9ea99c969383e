import FluentFixtures.Json.Writer
import FluentFixtures.Proofs.Json.Numeral
import FluentFixtures.Proofs.Number.Shortest
import Mathlib.Data.List.TakeWhile

/-!
# Numbers read back

Integers and finite doubles are written as canonical numerals, and those denote
them: `Numeral.value_ofInt` and `Numeral.value_ofDouble`.
-/

namespace FluentFixtures

namespace Double

theorem decimalValue_append_zeros (digits : Text) (n : Nat) :
    Text.decimalValue (digits ++ zeros n) = Text.decimalValue digits * 10 ^ n := by
  rw [Text.decimalValue_append, zeros, List.length_replicate, Text.decimalValue_zeros, Nat.add_zero]

theorem decimalValue_zeros_append (n : Nat) (digits : Text) :
    Text.decimalValue (zeros n ++ digits) = Text.decimalValue digits := by
  rw [Text.decimalValue_append, zeros, Text.decimalValue_zeros, Nat.zero_mul, Nat.zero_add]

/-- The zeros that are trimmed are the end of the digits. -/
theorem trimZeros_append (digits : Text) :
    (trimZeros digits).1 ++ zeros (trimZeros digits).2 = digits := by
  obtain ⟨ends, hends⟩ : ∃ ends, digits.reverse.takeWhile (· = 0x30) = ends := ⟨_, rfl⟩
  obtain ⟨kept, hkept⟩ : ∃ kept, digits.reverse.dropWhile (· = 0x30) = kept := ⟨_, rfl⟩
  have hzeros : ends = zeros ends.length := by
    apply List.eq_replicate_iff.mpr
    refine ⟨rfl, ?_⟩
    intro c hc
    rw [← hends] at hc
    simpa using List.mem_takeWhile_imp hc
  have hdigits : digits = kept.reverse ++ zeros ends.length := by
    calc digits = (ends ++ kept).reverse := by
          rw [← hends, ← hkept, List.takeWhile_append_dropWhile, List.reverse_reverse]
      _ = kept.reverse ++ zeros ends.length := by
          rw [List.reverse_append]
          congr 1
          conv_lhs => rw [hzeros]
          exact List.reverse_replicate
  have htrim : trimZeros digits = (digits.take (digits.length - ends.length), ends.length) := by
    rw [trimZeros, hends]
  have hlength : digits.length - ends.length = kept.reverse.length := by
    conv_lhs => rw [hdigits]
    simp [zeros]
  rw [htrim, hlength]
  conv_lhs => rw [hdigits, List.take_left]
  exact hdigits.symm

end Double

/-! ## Integers -/

namespace Json.Numeral

/-- The numeral of an integer. -/
def ofInt (n : Int) : Numeral := ⟨n < 0, Text.decimal n.natAbs, [], none⟩

theorem text_ofInt (n : Int) : (ofInt n).text = Text.integer n := by
  cases n with
  | ofNat n =>
    simp [text, ofInt, signText, fractionText, exponentText, Text.integer]
  | negSucc n =>
    simp [text, ofInt, signText, fractionText, exponentText, Text.integer]

theorem decimal_leading (n : Nat) :
    Text.decimal n = [0x30] ∨ ∃ c rest, Text.decimal n = c :: rest ∧ c ≠ 0x30 := by
  by_cases hn : n = 0
  · subst hn
    exact .inl (Text.decimal_of_lt (by omega))
  · exact .inr (Text.decimal_eq_cons hn)

theorem canonical_ofInt (n : Int) : (ofInt n).Canonical where
  whole := decimal_leading n.natAbs
  wholeDigits := Text.digits_decimal n.natAbs
  fractionDigits := List.forall_mem_nil _
  exponentDigits _ he := nomatch he

theorem value_ofInt {n : Int} (hn : isTooLong n = false) : (ofInt n).value = .ok (.int n) := by
  have hlength := (isTooLong_eq_false_iff n).mp hn
  have hvalue : (if decide (n < 0) = true then -(n.natAbs : Int) else n.natAbs) = n := by
    split
    · next h =>
      have := of_decide_eq_true h
      omega
    · next h =>
      have : ¬ n < 0 := fun hlt => h (decide_eq_true hlt)
      omega
  simp only [value, ofInt, List.isEmpty_nil, Option.isNone_none, Bool.and_self, if_true,
    if_neg (not_lt.mpr hlength), Text.decimalValue_decimal, hvalue]

/-! ## Doubles -/

/-- Digits with their point, the first of them counting `10 ^ exponent`. -/
def inPlaces (negative : Bool) (digits : Text) (exponent : Int) : Numeral :=
  if exponent < 0 then
    ⟨negative, [0x30], Double.zeros (-exponent - 1).toNat ++ digits, none⟩
  else if digits.length ≤ exponent.toNat + 1 then
    ⟨negative, digits ++ Double.zeros (exponent.toNat + 1 - digits.length), [0x30], none⟩
  else
    ⟨negative, digits.take (exponent.toNat + 1), digits.drop (exponent.toNat + 1), none⟩

/-- Digits with a point after the first and an exponent. -/
def withExponent (negative : Bool) (digits : Text) (exponent : Int) : Numeral :=
  ⟨negative, digits.take 1, digits.drop 1,
    some (exponent < 0,
      Double.zeros (Double.style.exponentDigits - (Text.decimal exponent.natAbs).length) ++
        Text.decimal exponent.natAbs)⟩

theorem fractionText_of_ne_nil {fraction : Text} (h : fraction ≠ []) :
    fractionText fraction = 0x2E :: fraction := by
  cases fraction with
  | nil => exact absurd rfl h
  | cons c rest => rfl

section Layout

variable (negative : Bool) {first : CodePoint} {more : Text} (hfirst : first ≠ 0x30)
  (hdigits : Text.Digits (first :: more)) (exponent : Int)

theorem text_inPlaces : (inPlaces negative (first :: more) exponent).text =
    Double.sign negative ++ Double.inPlaces (first :: more) exponent := by
  unfold inPlaces Double.inPlaces
  simp only
  split
  · simp [text, signText, Double.sign, exponentText, fractionText_of_ne_nil]
  · split
    · simp [text, signText, Double.sign, exponentText, fractionText_of_ne_nil]
    · next hlong =>
      have hdrop : (first :: more).drop (exponent.toNat + 1) ≠ [] := by
        rw [ne_eq, List.drop_eq_nil_iff]
        exact hlong
      simp only [text, signText, Double.sign, exponentText, fractionText_of_ne_nil hdrop]
      simp

theorem text_withExponent : (withExponent negative (first :: more) exponent).text =
    Double.sign negative ++ Double.withExponent Double.style (first :: more) exponent := by
  cases more with
  | nil =>
    simp [text, withExponent, signText, Double.sign, exponentText, fractionText,
      Double.withExponent, Double.exponentText]
  | cons c rest =>
    simp [text, withExponent, signText, Double.sign, exponentText, fractionText,
      Double.withExponent, Double.exponentText]

theorem double_inPlaces : (inPlaces negative (first :: more) exponent).double =
    Double.ofDecimal negative (Text.decimalValue (first :: more)) (exponent - more.length) := by
  unfold inPlaces
  split
  · next hneg =>
    have hlead (digits : Text) : Text.decimalValue (0x30 :: digits) = Text.decimalValue digits :=
      Double.decimalValue_zeros_append 1 digits
    have hexponent : (0 : Int) - (Double.zeros (-exponent - 1).toNat ++ first :: more).length =
        exponent - more.length := by
      simp only [Double.zeros, List.length_append, List.length_replicate, List.length_cons]
      omega
    simp only [double, exponentValue, List.singleton_append, hlead, hexponent,
      Double.decimalValue_zeros_append]
  · split
    · next hneg hshort =>
      obtain ⟨pad, hpad⟩ : ∃ pad, exponent.toNat + 1 - (first :: more).length = pad := ⟨_, rfl⟩
      have hzeros : Double.zeros pad ++ [0x30] = Double.zeros (pad + 1) := by
        rw [Double.zeros, Double.zeros, List.replicate_succ']
      simp only [double, exponentValue, hpad, List.append_assoc, hzeros,
        Double.decimalValue_append_zeros]
      rw [List.length_cons] at hpad hshort
      refine Double.ofDecimal_congr negative (m := 0) (Nat.mul_one _) ?_
      simp only [List.length_singleton]
      omega
    · next hneg hlong =>
      have hexponent : (0 : Int) - ((first :: more).drop (exponent.toNat + 1)).length =
          exponent - more.length := by
        rw [List.length_drop, List.length_cons]
        rw [List.length_cons] at hlong
        omega
      simp only [double, exponentValue, List.take_append_drop, hexponent]

theorem double_withExponent : (withExponent negative (first :: more) exponent).double =
    Double.ofDecimal negative (Text.decimalValue (first :: more)) (exponent - more.length) := by
  have hvalue : (withExponent negative (first :: more) exponent).exponentValue = exponent := by
    simp only [withExponent, exponentValue]
    split
    · next h => cases h
    · next h =>
      obtain ⟨hneg, rfl⟩ := Prod.mk.inj (Option.some.inj h)
      rw [Double.decimalValue_zeros_append, Text.decimalValue_decimal]
      have := of_decide_eq_true hneg
      omega
    · next h =>
      obtain ⟨hneg, rfl⟩ := Prod.mk.inj (Option.some.inj h)
      rw [Double.decimalValue_zeros_append, Text.decimalValue_decimal]
      have := of_decide_eq_false hneg
      omega
  rw [double, hvalue]
  rfl

include hfirst hdigits

theorem canonical_inPlaces : (inPlaces negative (first :: more) exponent).Canonical := by
  unfold inPlaces
  split
  · refine ⟨.inl rfl, Text.digits_replicate 1, ?_, nofun⟩
    exact Text.digits_append.mpr ⟨Text.digits_replicate _, hdigits⟩
  · split
    · refine ⟨.inr ⟨first, _, rfl, hfirst⟩, ?_, Text.digits_replicate 1, nofun⟩
      exact Text.digits_append.mpr ⟨hdigits, Text.digits_replicate _⟩
    · refine ⟨.inr ⟨first, _, rfl, hfirst⟩, ?_, ?_, nofun⟩
      · exact fun c hc => hdigits c (List.mem_of_mem_take hc)
      · exact fun c hc => hdigits c (List.mem_of_mem_drop hc)

theorem canonical_withExponent : (withExponent negative (first :: more) exponent).Canonical := by
  refine ⟨.inr ⟨first, [], rfl, hfirst⟩, ?_, ?_, ?_⟩
  · exact fun c hc => hdigits c (List.mem_of_mem_take hc)
  · exact fun c hc => hdigits c (List.mem_of_mem_drop hc)
  · rintro e ⟨rfl⟩
    refine ⟨?_, Text.digits_append.mpr ⟨Text.digits_replicate _, Text.digits_decimal _⟩⟩
    exact List.append_ne_nil_of_right_ne_nil _ (Text.decimal_ne_nil _)

end Layout

/-- The numeral of digits that count `10 ^ grid` decimal units. -/
def ofShortest (negative : Bool) (digits grid : Nat) : Numeral :=
  let trimmed := Double.trimZeros (Text.decimal digits)
  let exponent : Int := (trimmed.1.length + trimmed.2 + grid : Nat) - 1075
  if Double.style.leastPlace ≤ exponent ∧ exponent < Double.style.placeLimit then
    inPlaces negative trimmed.1 exponent
  else withExponent negative trimmed.1 exponent

/-- The numeral of a finite double. -/
def ofDouble (negative : Bool) (rank : Fin 0x7FF0000000000000) : Numeral :=
  if rank.val = 0 then ⟨negative, [0x30], [0x30], none⟩
  else ofShortest negative (Double.shortest rank).1 (Double.shortest rank).2

/-- What is left of the digits of a number other than zero begins with another digit than zero. -/
theorem trimZeros_eq_cons {digits : Nat} (h : digits ≠ 0) :
    ∃ first more, (Double.trimZeros (Text.decimal digits)).1 = first :: more ∧ first ≠ 0x30 ∧
      Text.Digits (first :: more) := by
  have happend := Double.trimZeros_append (Text.decimal digits)
  obtain ⟨first, rest, hdecimal, hfirst⟩ := Text.decimal_eq_cons h
  cases hkept : (Double.trimZeros (Text.decimal digits)).1 with
  | nil =>
    rw [hkept, List.nil_append] at happend
    have hmem : first ∈ Double.zeros (Double.trimZeros (Text.decimal digits)).2 := by
      rw [happend, hdecimal]
      exact List.mem_cons_self
    exact absurd (List.eq_of_mem_replicate hmem) hfirst
  | cons c more =>
    rw [hkept, List.cons_append] at happend
    obtain ⟨rfl, hmore⟩ := List.cons.inj (happend.trans hdecimal)
    refine ⟨c, more, rfl, hfirst, ?_⟩
    intro d hd
    refine Text.digits_decimal digits d ?_
    rw [hdecimal, ← hmore, ← List.cons_append]
    exact List.mem_append_left _ hd

theorem canonical_ofShortest (negative : Bool) {digits : Nat} (h : digits ≠ 0) (grid : Nat) :
    (ofShortest negative digits grid).Canonical := by
  obtain ⟨first, more, hkept, hfirst, hdigits⟩ := trimZeros_eq_cons h
  simp only [ofShortest, hkept]
  split
  · exact canonical_inPlaces negative hfirst hdigits _
  · exact canonical_withExponent negative hfirst hdigits _

theorem double_ofShortest (negative : Bool) {digits : Nat} (h : digits ≠ 0) (grid : Nat) :
    (ofShortest negative digits grid).double =
      Double.ofDecimal negative digits ((grid : Int) - 1074) := by
  obtain ⟨first, more, hkept, -, -⟩ := trimZeros_eq_cons h
  have happend := Double.trimZeros_append (Text.decimal digits)
  obtain ⟨dropped, hdropped⟩ : ∃ dropped, (Double.trimZeros (Text.decimal digits)).2 = dropped :=
    ⟨_, rfl⟩
  have hvalue : Text.decimalValue (first :: more) * 10 ^ dropped = digits * 10 ^ 0 := by
    rw [← Double.decimalValue_append_zeros, ← hkept, ← hdropped, happend,
      Text.decimalValue_decimal, Nat.pow_zero, Nat.mul_one]
  simp only [ofShortest, hkept, hdropped, List.length_cons]
  split
  · rw [double_inPlaces]
    refine Double.ofDecimal_congr negative hvalue ?_
    omega
  · rw [double_withExponent]
    refine Double.ofDecimal_congr negative hvalue ?_
    omega

theorem shortest_ne_zero {rank : Fin 0x7FF0000000000000} (h : rank.val ≠ 0) :
    (Double.shortest rank).1 ≠ 0 := by
  intro hzero
  have hdouble := Double.ofDecimal_shortest false rank
  rw [hzero] at hdouble
  have hrank : (0 : Fin 0x7FF0000000000000) = rank := (Double.finite.inj hdouble).2
  rw [← hrank] at h
  exact h rfl

variable (negative : Bool) (rank : Fin 0x7FF0000000000000)

theorem text_ofDouble :
    (ofDouble negative rank).text = (Double.finite negative rank).written := by
  show _ = Double.sign negative ++ Double.magnitude Double.style rank
  rw [ofDouble, Double.magnitude]
  split
  · simp only [text, signText, Double.sign, List.append_assoc]
    rfl
  · next hrank =>
    have hne := shortest_ne_zero hrank
    generalize Double.shortest rank = shortest at hne ⊢
    obtain ⟨digits, grid⟩ := shortest
    obtain ⟨first, more, hkept, -, -⟩ := trimZeros_eq_cons hne
    simp only [ofShortest]
    generalize Double.trimZeros (Text.decimal digits) = trimmed at hkept ⊢
    obtain ⟨kept, dropped⟩ := trimmed
    obtain rfl : kept = first :: more := hkept
    simp only
    split
    · exact text_inPlaces negative _
    · exact text_withExponent negative _

theorem canonical_ofDouble : (ofDouble negative rank).Canonical := by
  unfold ofDouble
  split
  · exact ⟨.inl rfl, Text.digits_replicate 1, Text.digits_replicate 1, nofun⟩
  · next hrank => exact canonical_ofShortest negative (shortest_ne_zero hrank) _

theorem double_ofDouble : (ofDouble negative rank).double = .finite negative rank := by
  unfold ofDouble
  split
  · next hrank =>
    have hzero : rank = 0 := Fin.ext hrank
    rw [hzero]
    rfl
  · next hrank =>
    rw [double_ofShortest negative (shortest_ne_zero hrank), Double.ofDecimal_shortest]

theorem isReal_ofDouble : ((ofDouble negative rank).fraction.isEmpty &&
    (ofDouble negative rank).exponent.isNone) = false := by
  have hplaces (digits : Text) (h : digits ≠ []) (exponent : Int) :
      (inPlaces negative digits exponent).fraction.isEmpty = false := by
    rw [inPlaces]
    split
    · simp [h]
    · split
      · rfl
      · next hlong =>
        simp only [List.isEmpty_eq_false_iff, ne_eq, List.drop_eq_nil_iff]
        exact hlong
  rw [ofDouble]
  split
  · rfl
  · next hrank =>
    obtain ⟨first, more, hkept, -, -⟩ := trimZeros_eq_cons (shortest_ne_zero hrank)
    simp only [ofShortest, hkept]
    split
    · rw [hplaces _ (List.cons_ne_nil first more), Bool.false_and]
    · rw [withExponent, Option.isNone_some, Bool.and_false]

theorem value_ofDouble :
    (ofDouble negative rank).value = .ok (.double (.finite negative rank)) := by
  have hreal := isReal_ofDouble negative rank
  simp only [value, hreal, double_ofDouble]
  rfl

end Json.Numeral

end FluentFixtures
