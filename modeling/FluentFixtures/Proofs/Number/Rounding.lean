import FluentFixtures.Number.Rounding
import Mathlib.Algebra.Order.Ring.Nat
import Mathlib.Tactic.Ring

/-!
# Rounding finds the double that is there

Ranks are in the order of their values, so a value that is a double rounds to
itself: `nearestRank_units`. The nearest rank depends on the fraction alone, and
the exponents that `ofDecimal` does not expand overflow or vanish:
`ofDecimal_eq_ofFraction`.
-/

namespace FluentFixtures.Double

/-! ## The values of ranks -/

theorem units_of_lt {rank : Nat} (h : rank < 2 ^ 52) : units rank = rank := if_pos h

theorem units_binade {m : Nat} (hm : m < 2 ^ 52) (q : Nat) :
    units ((q + 1) * 2 ^ 52 + m) = (2 ^ 52 + m) * 2 ^ q := by
  have hmod : ((q + 1) * 2 ^ 52 + m) % 2 ^ 52 = m := by omega
  have hdiv : ((q + 1) * 2 ^ 52 + m) / 2 ^ 52 = q + 1 := by omega
  have hge : ¬ (q + 1) * 2 ^ 52 + m < 2 ^ 52 := by omega
  simp only [units, Nat.pow_eq, if_neg hge, hmod, hdiv, Nat.add_sub_cancel]

theorem rank_cases (rank : Nat) :
    rank < 2 ^ 52 ∨ ∃ q m, m < 2 ^ 52 ∧ rank = (q + 1) * 2 ^ 52 + m := by
  by_cases h : rank < 2 ^ 52
  · exact .inl h
  · exact .inr ⟨rank / 2 ^ 52 - 1, rank % 2 ^ 52, by omega, by omega⟩

theorem units_lt_succ (rank : Nat) : units rank < units (rank + 1) := by
  rcases rank_cases rank with h | ⟨q, m, hm, rfl⟩
  · by_cases hlast : rank + 1 < 2 ^ 52
    · rw [units_of_lt h, units_of_lt hlast]
      omega
    · have hfirst : rank + 1 = (0 + 1) * 2 ^ 52 + 0 := by omega
      rw [units_of_lt h, hfirst, units_binade (by decide)]
      omega
  · have hpos : 0 < 2 ^ q := Nat.two_pow_pos q
    rw [units_binade hm]
    by_cases hlast : m + 1 < 2 ^ 52
    · rw [Nat.add_assoc, units_binade hlast]
      exact Nat.mul_lt_mul_of_pos_right (by omega) hpos
    · have hnext : (q + 1) * 2 ^ 52 + m + 1 = (q + 1 + 1) * 2 ^ 52 + 0 := by omega
      rw [hnext, units_binade (by decide), Nat.pow_succ, Nat.add_zero]
      calc (2 ^ 52 + m) * 2 ^ q < (2 ^ 52 * 2) * 2 ^ q :=
            Nat.mul_lt_mul_of_pos_right (by omega) hpos
        _ = 2 ^ 52 * (2 ^ q * 2) := by ring

theorem log2_binade {m : Nat} (hm : m < 2 ^ 52) (q : Nat) :
    ((2 ^ 52 + m) * 2 ^ q).log2 = 52 + q := by
  have hpos : 0 < 2 ^ q := Nat.two_pow_pos q
  have hne : (2 ^ 52 + m) * 2 ^ q ≠ 0 := (Nat.mul_pos (by omega) hpos).ne'
  refine (Nat.log2_eq_iff hne).mpr ⟨?_, ?_⟩
  · rw [Nat.pow_add]
    exact Nat.mul_le_mul_right _ (by omega)
  · have hbelow : (2 ^ 52 + m) * 2 ^ q < 2 ^ 53 * 2 ^ q :=
      Nat.mul_lt_mul_of_pos_right (by omega) hpos
    rwa [← Nat.pow_add, show 53 + q = 52 + q + 1 by omega] at hbelow

theorem rankBelow_units (rank : Nat) : rankBelow (units rank) = rank := by
  rcases rank_cases rank with h | ⟨q, m, hm, rfl⟩
  · have hsmall : rank < Nat.pow 2 53 := h.trans (by decide)
    rw [units_of_lt h, rankBelow, if_pos hsmall]
  · rw [units_binade hm, rankBelow]
    split
    · next hsmall =>
      obtain rfl : q = 0 := by
        by_contra hq
        have htwo : 2 ^ 1 ≤ 2 ^ q := Nat.pow_le_pow_right (by omega) (by omega)
        have hbelow : (2 ^ 52 + m) * 2 ^ q < 2 ^ 53 := hsmall
        have hge : (2 ^ 52 + m) * 2 ^ 1 ≤ (2 ^ 52 + m) * 2 ^ q := Nat.mul_le_mul_left _ htwo
        omega
      omega
    · simp only [Nat.pow_eq, log2_binade hm, Nat.add_sub_cancel_left,
        Nat.mul_div_cancel _ (Nat.two_pow_pos q)]
      ring

theorem le_rankBelow {n k : Nat} (hk : 53 ≤ k) (h : 2 ^ k ≤ n) :
    (k - 52) * 2 ^ 52 ≤ rankBelow n := by
  have hlarge : ¬ n < Nat.pow 2 53 :=
    not_lt.mpr ((Nat.pow_le_pow_right (by omega) hk).trans h)
  have hn : n ≠ 0 := by
    rintro rfl
    exact absurd h (by simp)
  have hlog : k ≤ n.log2 := (Nat.le_log2 hn).mpr h
  simp only [rankBelow, if_neg hlarge, Nat.pow_eq]
  calc (k - 52) * 2 ^ 52 ≤ (n.log2 - 52) * 2 ^ 52 := Nat.mul_le_mul_right _ (by omega)
    _ ≤ _ := Nat.le_add_right _ _

/-! ## The nearest rank -/

/-- The number of units in one by its exponent, which is too great to be computed with. -/
theorem unitsPerOne_eq_pow : ∃ scale, scale = 1074 ∧ unitsPerOne = 2 ^ scale := by
  refine ⟨1074, rfl, ?_⟩
  unfold unitsPerOne
  generalize 1074 = scale
  rfl

theorem unitsPerOne_pos : 0 < unitsPerOne := by
  obtain ⟨scale, -, hunits⟩ := unitsPerOne_eq_pow
  rw [hunits]
  exact Nat.two_pow_pos scale

theorem nearestRank_mul_right (num den : Nat) {k : Nat} (hk : 0 < k) :
    nearestRank (num * k) (den * k) = nearestRank num den := by
  have hscaled : num * k * unitsPerOne = num * unitsPerOne * k := by ring
  have hvalue : num * k * unitsPerOne / (den * k) = num * unitsPerOne / den := by
    rw [hscaled, Nat.mul_div_mul_right _ _ hk]
  have htwice (x : Nat) : x * (den * k) = x * den * k := by ring
  simp only [nearestRank, hvalue]
  simp only [hscaled, htwice, ← Nat.mul_assoc 2, Nat.mul_lt_mul_right hk]

theorem nearestRank_congr {num den num' den' : Nat} (hden : 0 < den) (hden' : 0 < den')
    (h : num * den' = num' * den) : nearestRank num den = nearestRank num' den' := by
  rw [← nearestRank_mul_right num den hden', ← nearestRank_mul_right num' den' hden, h,
    Nat.mul_comm den]

theorem nearestRank_units (rank : Nat) : nearestRank (units rank) unitsPerOne = rank := by
  have hbelow : rankBelow (units rank * unitsPerOne / unitsPerOne) = rank := by
    rw [Nat.mul_div_cancel _ unitsPerOne_pos, rankBelow_units]
  have hlt : 2 * (units rank * unitsPerOne) < (units rank + units (rank + 1)) * unitsPerOne := by
    rw [← Nat.mul_assoc]
    have := units_lt_succ rank
    exact Nat.mul_lt_mul_of_pos_right (by omega) unitsPerOne_pos
  simp only [nearestRank, hbelow, if_pos hlt]

theorem rankBelow_le_nearestRank (num den : Nat) :
    rankBelow (num * unitsPerOne / den) ≤ nearestRank num den := by
  unfold nearestRank
  simp only
  split_ifs <;> omega

/-- Great fractions overflow. -/
theorem limit_le_nearestRank {num den k : Nat} (hden : 0 < den) (hk : 1025 ≤ k)
    (h : den * 2 ^ k ≤ num) : 0x7FF0000000000000 ≤ nearestRank num den := by
  obtain ⟨scale, hscale, hunits⟩ := unitsPerOne_eq_pow
  have hvalue : 2 ^ (k + scale) ≤ num * unitsPerOne / den := by
    rw [Nat.le_div_iff_mul_le hden, Nat.pow_add, hunits]
    calc 2 ^ k * 2 ^ scale * den = den * 2 ^ k * 2 ^ scale := by ring
      _ ≤ num * 2 ^ scale := Nat.mul_le_mul_right _ h
  calc 0x7FF0000000000000 ≤ (k + scale - 52) * 2 ^ 52 := by omega
    _ ≤ rankBelow (num * unitsPerOne / den) := le_rankBelow (by omega) hvalue
    _ ≤ nearestRank num den := rankBelow_le_nearestRank num den

/-- Small fractions vanish. -/
theorem nearestRank_eq_zero {num den k : Nat} (hk : 1075 ≤ k) (h : num * 2 ^ k < den) :
    nearestRank num den = 0 := by
  obtain ⟨scale, hscale, hone⟩ := unitsPerOne_eq_pow
  have hhalf : 2 * (num * unitsPerOne) < den := by
    calc 2 * (num * unitsPerOne) = num * 2 ^ (scale + 1) := by rw [hone]; ring
      _ ≤ num * 2 ^ k := Nat.mul_le_mul_left _ (Nat.pow_le_pow_right (by omega) (by omega))
      _ < den := h
  have hvalue : num * unitsPerOne / den = 0 := Nat.div_eq_of_lt (by omega)
  have hzero : rankBelow 0 = 0 := rfl
  have hunits : units 0 + units (0 + 1) = 1 := rfl
  simp only [nearestRank, hvalue, hzero, hunits, Nat.one_mul, if_pos hhalf]

/-! ## Decimal numerals -/

theorem ofRank_of_lt (negative : Bool) {rank : Nat} (h : rank < 0x7FF0000000000000) :
    ofRank negative rank = .finite negative ⟨rank, h⟩ := dif_pos h

theorem ofRank_of_ge (negative : Bool) {rank : Nat} (h : 0x7FF0000000000000 ≤ rank) :
    ofRank negative rank = .infinite negative := dif_neg (not_lt.mpr h)

theorem two_pow_le_ten_pow (n : Nat) : 2 ^ (3 * n) ≤ 10 ^ n := by
  rw [Nat.pow_mul]
  exact Nat.pow_le_pow_left (by decide) n

/-- A number overflows if its exponent is great. -/
theorem ofFraction_of_great (negative : Bool) {digits e : Nat} (hdigits : digits ≠ 0)
    (he : 400 < e) : ofFraction negative (digits * 10 ^ e) 1 = .infinite negative := by
  have hlarge : 1 * 2 ^ (3 * e) ≤ digits * 10 ^ e :=
    Nat.mul_le_mul (by omega) (two_pow_le_ten_pow e)
  exact ofRank_of_ge negative (limit_le_nearestRank Nat.one_pos (by omega) hlarge)

/-- A number vanishes if its exponent is far below its digits. -/
theorem ofFraction_of_small (negative : Bool) {digits e : Nat} (he : 400 + digits.log2 < e) :
    ofFraction negative digits (10 ^ (e + 1)) = zero negative := by
  obtain ⟨least, hleast⟩ : ∃ least, 1075 = least := ⟨_, rfl⟩
  have hlog : digits < 2 ^ (digits.log2 + 1) := Nat.lt_log2_self
  have hsmall : digits * 2 ^ least < 10 ^ (e + 1) := by
    calc digits * 2 ^ least < 2 ^ (digits.log2 + 1) * 2 ^ least :=
          Nat.mul_lt_mul_of_pos_right hlog (Nat.two_pow_pos _)
      _ = 2 ^ (digits.log2 + 1 + least) := (Nat.pow_add ..).symm
      _ ≤ 2 ^ (3 * (e + 1)) := Nat.pow_le_pow_right (by omega) (by omega)
      _ ≤ 10 ^ (e + 1) := two_pow_le_ten_pow _
  exact congrArg (ofRank negative) (nearestRank_eq_zero hleast.le hsmall)

theorem ofFraction_zero (negative : Bool) {den : Nat} (hden : 0 < den) :
    ofFraction negative 0 den = zero negative := by
  obtain ⟨least, hleast⟩ : ∃ least, 1075 = least := ⟨_, rfl⟩
  have hsmall : 0 * 2 ^ least < den := by rwa [Nat.zero_mul]
  exact congrArg (ofRank negative) (nearestRank_eq_zero hleast.le hsmall)

/-- Exponents that are not expanded change no result. -/
theorem ofDecimal_eq_ofFraction (negative : Bool) (digits : Nat) (exponent : Int) :
    ofDecimal negative digits exponent =
      ofFraction negative (digits * 10 ^ exponent.toNat) (10 ^ (-exponent).toNat) := by
  unfold ofDecimal
  by_cases hdigits : digits = 0
  · rw [if_pos hdigits, hdigits, Nat.zero_mul]
    exact (ofFraction_zero negative (Nat.pow_pos (by omega))).symm
  · rw [if_neg hdigits]
    cases exponent with
    | ofNat e =>
      have hnum : (Int.ofNat e).toNat = e := rfl
      have hden : (-Int.ofNat e).toNat = 0 := by
        rw [Int.ofNat_eq_natCast]
        omega
      rw [hnum, hden, Nat.pow_zero]
      simp only
      split
      · next hgreat => exact (ofFraction_of_great negative hdigits hgreat).symm
      · rfl
    | negSucc e =>
      have hnum : (Int.negSucc e).toNat = 0 := rfl
      have hden : (-Int.negSucc e).toNat = e + 1 := rfl
      rw [hnum, hden, Nat.pow_zero, Nat.mul_one]
      simp only
      split
      · next hsmall => exact (ofFraction_of_small negative hsmall).symm
      · rfl

theorem ofFraction_congr (negative : Bool) {num den num' den' : Nat} (hden : 0 < den)
    (hden' : 0 < den') (h : num * den' = num' * den) :
    ofFraction negative num den = ofFraction negative num' den' := by
  rw [ofFraction, nearestRank_congr hden hden' h, ofFraction]

theorem ten_pow_pos (n : Nat) : 0 < 10 ^ n := Nat.pow_pos (by omega)

theorem ofFraction_ten_pow (negative : Bool) (digits up down : Nat) :
    ofFraction negative (digits * 10 ^ up) (10 ^ down) =
      ofDecimal negative digits ((up : Int) - down) := by
  rw [ofDecimal_eq_ofFraction]
  refine ofFraction_congr negative (ten_pow_pos _) (ten_pow_pos _) ?_
  rw [Nat.mul_assoc, Nat.mul_assoc, ← Nat.pow_add, ← Nat.pow_add]
  congr 2
  omega

/-- Decimals of the same value are the same double: `d` times `10 ^ m` is `k` times `10 ^ n`, and
the exponents differ the other way round. -/
theorem ofDecimal_congr (negative : Bool) {d k m n : Nat} {e f : Int} (h : d * 10 ^ m = k * 10 ^ n)
    (hexponent : e + n = f + m) : ofDecimal negative d e = ofDecimal negative k f := by
  rw [ofDecimal_eq_ofFraction, ofDecimal_eq_ofFraction]
  refine ofFraction_congr negative (ten_pow_pos _) (ten_pow_pos _) ?_
  refine Nat.eq_of_mul_eq_mul_right (ten_pow_pos n) ?_
  have hpowers : e.toNat + (-f).toNat + n = m + (f.toNat + (-e).toNat) := by omega
  calc d * 10 ^ e.toNat * 10 ^ (-f).toNat * 10 ^ n
      = d * 10 ^ (e.toNat + (-f).toNat + n) := by rw [Nat.pow_add, Nat.pow_add]; ring
    _ = d * 10 ^ m * 10 ^ (f.toNat + (-e).toNat) := by rw [hpowers, Nat.pow_add]; ring
    _ = k * 10 ^ n * 10 ^ (f.toNat + (-e).toNat) := by rw [h]
    _ = k * 10 ^ f.toNat * 10 ^ (-e).toNat * 10 ^ n := by rw [Nat.pow_add]; ring

end FluentFixtures.Double
