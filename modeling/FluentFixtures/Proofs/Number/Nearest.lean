import FluentFixtures.Proofs.Number.Rounding
import Mathlib.Algebra.Order.Field.Rat
import Mathlib.Order.Monotone.Basic
import Mathlib.Tactic.FieldSimp
import Mathlib.Tactic.Linarith

/-!
# The nearest double

A rank is nearest to a number if no other stands for a number as near, or if it
is the even one of two that are: `IsNearest`. There is one such rank,
`IsNearest.unique`, and decimals are rounded to it: `ofDecimal_eq_ofRank`.
-/

namespace FluentFixtures.Double

/-- The number that a rank stands for. Ranks go on above those of the finite doubles. -/
def value (rank : ℕ) : ℚ := units rank / unitsPerOne

/-- Whether a rank stands for the number nearest to another, and is even if there are two. -/
structure IsNearest (x : ℚ) (rank : ℕ) : Prop where
  near : ∀ other, |x - value rank| ≤ |x - value other|
  even : ∀ other, |x - value rank| = |x - value other| → other = rank ∨ rank % 2 = 0

theorem unitsPerOne_cast_pos : (0 : ℚ) < unitsPerOne := Nat.cast_pos.mpr unitsPerOne_pos

theorem strictMono_value : StrictMono value := by
  refine strictMono_nat_of_lt_succ fun rank => ?_
  exact (div_lt_div_iff_of_pos_right unitsPerOne_cast_pos).mpr (Nat.cast_lt.mpr (units_lt_succ rank))

/-! ## Neighbours -/

section Neighbours

variable {x : ℚ} {below rank other : ℕ}

/-- All ranks but the neighbours of a number are farther than one of those. -/
theorem lt_distance (hne : other ≠ below) (hne' : other ≠ below + 1) :
    x - value below < |x - value other| ∨ value (below + 1) - x < |x - value other| := by
  rcases Nat.lt_or_ge other below with hlt | hge
  · left
    have hvalue := strictMono_value hlt
    exact lt_of_lt_of_le (by linarith) (le_abs_self _)
  · right
    have hvalue : value (below + 1) < value other := strictMono_value (by omega)
    rw [abs_sub_comm]
    exact lt_of_lt_of_le (by linarith) (le_abs_self _)

/-- A neighbour as near as the other is nearest, if it is even where both are as near. -/
theorem isNearest_of_neighbour (hbelow : value below ≤ x) (habove : x < value (below + 1))
    (hrank : rank = below ∨ rank = below + 1) (hnear : |x - value rank| ≤ x - value below)
    (hnear' : |x - value rank| ≤ value (below + 1) - x)
    (htie : 2 * x = value below + value (below + 1) → rank % 2 = 0) : IsNearest x rank := by
  have hdown : |x - value below| = x - value below := abs_of_nonneg (by linarith)
  have hup : |x - value (below + 1)| = value (below + 1) - x := by
    rw [abs_sub_comm]
    exact abs_of_nonneg (by linarith)
  constructor
  case near =>
    intro other
    by_cases hother : other = below
    · rw [hother, hdown]
      exact hnear
    by_cases hother' : other = below + 1
    · rw [hother', hup]
      exact hnear'
    rcases lt_distance hother hother' with hfar | hfar
    · exact hnear.trans hfar.le
    · exact hnear'.trans hfar.le
  case even =>
    intro other hsame
    by_cases hself : other = rank
    · exact .inl hself
    refine .inr (htie ?_)
    by_cases hother : other = below
    · obtain rfl := hrank.resolve_left fun h => hself (hother.trans h.symm)
      rw [hother, hdown, hup] at hsame
      linarith
    by_cases hother' : other = below + 1
    · obtain rfl := hrank.resolve_right fun h => hself (hother'.trans h.symm)
      rw [hother', hdown, hup] at hsame
      linarith
    rcases lt_distance hother hother' with hfar | hfar
    · exact absurd (hnear.trans_lt hfar) (by rw [hsame]; exact lt_irrefl _)
    · exact absurd (hnear'.trans_lt hfar) (by rw [hsame]; exact lt_irrefl _)

theorem isNearest_below (hbelow : value below ≤ x) (h : 2 * x < value below + value (below + 1)) :
    IsNearest x below := by
  have hdown : |x - value below| = x - value below := abs_of_nonneg (by linarith)
  refine isNearest_of_neighbour hbelow (by linarith) (.inl rfl) hdown.le ?_ fun htie => ?_
  · rw [hdown]
    linarith
  · linarith

theorem isNearest_above (habove : x < value (below + 1))
    (h : value below + value (below + 1) < 2 * x) : IsNearest x (below + 1) := by
  have hup : |x - value (below + 1)| = value (below + 1) - x := by
    rw [abs_sub_comm]
    exact abs_of_nonneg (by linarith)
  refine isNearest_of_neighbour (by linarith) habove (.inr rfl) ?_ hup.le fun htie => ?_
  · rw [hup]
    linarith
  · linarith

/-- Of two neighbours that are as near the even one is nearest. -/
theorem isNearest_tie (h : 2 * x = value below + value (below + 1))
    (hrank : rank = below ∨ rank = below + 1) (heven : rank % 2 = 0) : IsNearest x rank := by
  have hvalue : value below < value (below + 1) := strictMono_value (Nat.lt_succ_self below)
  have hdistance : |x - value rank| = x - value below := by
    rcases hrank with rfl | rfl
    · exact abs_of_nonneg (by linarith)
    · rw [abs_sub_comm, abs_of_nonneg (by linarith)]
      linarith
  exact isNearest_of_neighbour (by linarith) (by linarith) hrank hdistance.le
    (hdistance.le.trans (by linarith)) fun _ => heven

theorem IsNearest.le (h : IsNearest x rank) (h' : IsNearest x other) : other ≤ rank := by
  by_contra hle
  have hlt : rank < other := not_le.mp hle
  have hsame : |x - value rank| = |x - value other| := le_antisymm (h.near other) (h'.near rank)
  -- Both are even, so there is a rank between them, which is nearer.
  have heven := (h.even other hsame).resolve_left hlt.ne'
  have heven' := (h'.even rank hsame.symm).resolve_left hlt.ne
  have hbelow : value rank < value (rank + 1) := strictMono_value (Nat.lt_succ_self rank)
  have habove : value (rank + 1) < value other := strictMono_value (by omega)
  have hdown := le_abs_self (x - value rank)
  have hup := neg_abs_le (x - value other)
  have hnearer : |x - value (rank + 1)| < |x - value rank| :=
    abs_lt.mpr ⟨by linarith, by linarith⟩
  exact absurd (h.near (rank + 1)) hnearer.not_ge

theorem IsNearest.unique (h : IsNearest x rank) (h' : IsNearest x other) : rank = other :=
  Nat.le_antisymm (h'.le h) (h.le h')

end Neighbours

/-! ## Rounding -/

/-- In a binade and at the start of the next one, ranks are places of the same size. -/
theorem units_binade_le {m : ℕ} (hm : m ≤ 2 ^ 52) (q : ℕ) :
    units ((q + 1) * 2 ^ 52 + m) = (2 ^ 52 + m) * 2 ^ q := by
  rcases Nat.lt_or_ge m (2 ^ 52) with hlt | hge
  · exact units_binade hlt q
  · obtain rfl : m = 2 ^ 52 := Nat.le_antisymm hm hge
    have hnext : (q + 1) * 2 ^ 52 + 2 ^ 52 = (q + 1 + 1) * 2 ^ 52 + 0 := by ring
    rw [hnext, units_binade (Nat.two_pow_pos 52), Nat.pow_succ]
    ring

theorem units_of_le {rank : ℕ} (h : rank ≤ 2 ^ 53) : units rank = rank := by
  rcases Nat.lt_or_ge rank (2 ^ 52) with hlt | hge
  · exact units_of_lt hlt
  · have hrank : rank = (0 + 1) * 2 ^ 52 + (rank - 2 ^ 52) := by omega
    rw [hrank, units_binade_le (by omega)]
    omega

/-- A number of units is at the rank below it or between it and the next. -/
theorem units_rankBelow (n : ℕ) : units (rankBelow n) ≤ n ∧ n < units (rankBelow n + 1) := by
  unfold rankBelow
  split
  · next hsmall =>
    have hsmall : n < 2 ^ 53 := hsmall
    rw [units_of_le hsmall.le, units_of_le (by omega)]
    exact ⟨le_rfl, Nat.lt_succ_self n⟩
  · next hlarge =>
    have hlarge : 2 ^ 53 ≤ n := not_lt.mp hlarge
    have hn : n ≠ 0 := by omega
    have hlog : 53 ≤ n.log2 := (Nat.le_log2 hn).mpr hlarge
    simp only [Nat.pow_eq]
    generalize hshift : n.log2 - 52 = shift
    have hpos : 0 < 2 ^ shift := Nat.two_pow_pos shift
    have hfirst : 2 ^ 52 ≤ n / 2 ^ shift := by
      rw [Nat.le_div_iff_mul_le hpos, ← Nat.pow_add]
      exact (Nat.le_log2 hn).mp (by omega)
    have hlast : n / 2 ^ shift < 2 ^ 53 := by
      rw [Nat.div_lt_iff_lt_mul hpos, ← Nat.pow_add]
      exact (Nat.log2_lt hn).mp (by omega)
    have hdown := Nat.div_mul_le_self n (2 ^ shift)
    have hup := Nat.lt_mul_div_succ n hpos
    generalize n / 2 ^ shift = place at *
    obtain ⟨m, rfl⟩ := Nat.exists_eq_add_of_le hfirst
    have hrank : shift * 2 ^ 52 + (2 ^ 52 + m) = (shift + 1) * 2 ^ 52 + m := by ring
    rw [hrank, Nat.add_assoc, units_binade_le (by omega), units_binade_le (by omega)]
    exact ⟨hdown, by rwa [Nat.mul_comm, Nat.add_assoc] at hup⟩

section Fractions

variable {num den k : ℕ} (hden : 0 < den)

include hden

theorem div_unitsPerOne_le_iff :
    (k : ℚ) / unitsPerOne ≤ num / den ↔ k * den ≤ num * unitsPerOne := by
  have hden' : (0 : ℚ) < den := Nat.cast_pos.mpr hden
  rw [div_le_div_iff₀ unitsPerOne_cast_pos hden']
  norm_cast

theorem lt_div_unitsPerOne_iff :
    (num : ℚ) / den < k / unitsPerOne ↔ num * unitsPerOne < k * den := by
  rw [← not_le, div_unitsPerOne_le_iff hden, not_le]

theorem div_unitsPerOne_lt_iff :
    (k : ℚ) / unitsPerOne < num / den ↔ k * den < num * unitsPerOne := by
  have hden' : (0 : ℚ) < den := Nat.cast_pos.mpr hden
  rw [div_lt_div_iff₀ unitsPerOne_cast_pos hden']
  norm_cast

end Fractions

theorem isNearest_nearestRank (num : ℕ) {den : ℕ} (hden : 0 < den) :
    IsNearest (num / den) (nearestRank num den) := by
  obtain ⟨hdown, hup⟩ := units_rankBelow (num * unitsPerOne / den)
  rw [Nat.le_div_iff_mul_le hden] at hdown
  rw [Nat.div_lt_iff_lt_mul hden] at hup
  unfold nearestRank
  simp only
  generalize rankBelow (num * unitsPerOne / den) = below at *
  have hbelow : value below ≤ num / den := (div_unitsPerOne_le_iff hden).mpr hdown
  have habove : (num : ℚ) / den < value (below + 1) := (lt_div_unitsPerOne_iff hden).mpr hup
  have hsum : value below + value (below + 1) =
      ((units below + units (below + 1) : ℕ) : ℚ) / unitsPerOne := by
    rw [Nat.cast_add, add_div]
    rfl
  have htwice : 2 * ((num : ℚ) / den) = ((2 * num : ℕ) : ℚ) / den := by
    rw [Nat.cast_mul, mul_div_assoc]
    rfl
  rw [← Nat.mul_assoc]
  split_ifs with hlow hhigh heven
  · refine isNearest_below hbelow ?_
    rw [hsum, htwice]
    exact (lt_div_unitsPerOne_iff hden).mpr hlow
  · refine isNearest_above habove ?_
    rw [hsum, htwice]
    exact (div_unitsPerOne_lt_iff hden).mpr hhigh
  all_goals
    have htie : 2 * ((num : ℚ) / den) = value below + value (below + 1) := by
      rw [hsum, htwice]
      exact le_antisymm (not_lt.mp ((div_unitsPerOne_lt_iff hden).not.mpr hhigh))
        (not_lt.mp ((lt_div_unitsPerOne_iff hden).not.mpr hlow))
  · exact isNearest_tie htie (.inl rfl) heven
  · exact isNearest_tie htie (.inr rfl) (by omega)

/-- A decimal is rounded to the nearest rank, which overflows or is that of a double. -/
theorem ofDecimal_eq_ofRank (negative : Bool) (digits : ℕ) (exponent : ℤ) :
    ∃ rank, IsNearest (digits * 10 ^ exponent) rank ∧
      ofDecimal negative digits exponent = ofRank negative rank := by
  have hvalue : (digits : ℚ) * 10 ^ exponent =
      ((digits * 10 ^ exponent.toNat : ℕ) : ℚ) / ((10 ^ (-exponent).toNat : ℕ) : ℚ) := by
    obtain ⟨e, rfl | rfl⟩ := exponent.eq_nat_or_neg
    · simp
    · simp [div_eq_mul_inv]
  refine ⟨_, ?_, ofDecimal_eq_ofFraction negative digits exponent⟩
  rw [hvalue]
  exact isNearest_nearestRank _ (ten_pow_pos _)

end FluentFixtures.Double
