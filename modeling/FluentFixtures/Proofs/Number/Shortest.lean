import FluentFixtures.Number.Shortest
import FluentFixtures.Proofs.Number.Rounding

/-!
# The shortest decimal reads back

The digits that `shortest` finds round to the rank they stand for: a grid is
taken only if its digits do, and the exact value does on the finest grid.
-/

namespace FluentFixtures.Double

/-- The number of decimal units in one by its exponent, which is too great to be computed with. -/
theorem decimalUnitsPerOne_eq_pow : ∃ scale, scale = 1074 ∧ decimalUnitsPerOne = 10 ^ scale := by
  refine ⟨1074, rfl, ?_⟩
  unfold decimalUnitsPerOne
  generalize 1074 = scale
  rfl

theorem decimalUnitsPerOne_pos : 0 < decimalUnitsPerOne := by
  obtain ⟨scale, -, hunits⟩ := decimalUnitsPerOne_eq_pow
  rw [hunits]
  exact ten_pow_pos scale

theorem readsBack_iff {rank grid digits : Nat} :
    readsBack rank grid digits = true ↔
      nearestRank (digits * 10 ^ grid) decimalUnitsPerOne = rank :=
  decide_eq_true_iff

/-- A value in decimal units is the fraction of its units. -/
theorem decimalUnits_mul (rank : Nat) :
    decimalUnits rank * unitsPerOne = units rank * decimalUnitsPerOne := by
  unfold decimalUnits unitsPerOne decimalUnitsPerOne
  generalize 1074 = scale
  have hten : Nat.pow 10 scale = Nat.pow 5 scale * Nat.pow 2 scale := Nat.mul_pow 5 2 scale
  rw [hten, Nat.mul_assoc]

theorem readsBack_finest {rank value : Nat} (h : nearestRank value decimalUnitsPerOne = rank) :
    readsBack rank 0 value = true := by
  rw [readsBack_iff, Nat.pow_zero, Nat.mul_one, h]

theorem readsBack_exact (rank : Nat) : readsBack rank 0 (decimalUnits rank) = true := by
  have hsame := nearestRank_congr decimalUnitsPerOne_pos unitsPerOne_pos (decimalUnits_mul rank)
  exact readsBack_finest (hsame.trans (nearestRank_units rank))

theorem passes_of_neighbour? {passes : Nat → Bool} {value step digits : Nat}
    (h : neighbour? passes value step = some digits) : passes digits = true := by
  unfold neighbour? at h
  simp only at h
  split at h
  · next hbelow habove =>
    split_ifs at h <;> obtain rfl := Option.some.inj h
    · exact hbelow
    · exact habove
    · exact hbelow
    · exact habove
  · next hbelow _ =>
    obtain rfl := Option.some.inj h
    exact hbelow
  · next _ habove =>
    obtain rfl := Option.some.inj h
    exact habove
  · cases h

theorem readsBack_of_onGrid? {rank grid digits : Nat} (h : onGrid? rank grid = some digits) :
    readsBack rank grid digits = true := by
  unfold onGrid? at h
  exact passes_of_neighbour? h

theorem readsBack_of_firstGrid {rank digits grid : Nat} {grids : List Nat}
    (h : firstGrid rank grids = some (digits, grid)) : readsBack rank grid digits = true := by
  obtain ⟨first, -, hfirst⟩ := List.exists_of_findSome?_eq_some h
  obtain ⟨found, hfound, hpair⟩ := Option.map_eq_some_iff.mp hfirst
  obtain ⟨rfl, rfl⟩ := Prod.mk.inj hpair
  exact readsBack_of_onGrid? hfound

theorem readsBack_shortest (rank : Nat) :
    readsBack rank (shortest rank).2 (shortest rank).1 = true := by
  unfold shortest
  cases h : firstGrid rank (grids rank) with
  | none => exact readsBack_exact rank
  | some found => exact readsBack_of_firstGrid h

/-- The shortest decimal is the double it stands for. -/
theorem ofDecimal_shortest (negative : Bool) (rank : Fin 0x7FF0000000000000) :
    ofDecimal negative (shortest rank).1 ((shortest rank).2 - 1074) = .finite negative rank := by
  have hrank := readsBack_iff.mp (readsBack_shortest rank)
  obtain ⟨scale, hscale, hunits⟩ := decimalUnitsPerOne_eq_pow
  have hexponent : ((shortest rank).2 : Int) - 1074 = (shortest rank).2 - (scale : Nat) := by
    rw [hscale]
    rfl
  rw [hexponent, ← ofFraction_ten_pow, ← hunits, ofFraction, hrank, ofRank_of_lt negative rank.isLt]

end FluentFixtures.Double
