import FluentFixtures.Number.Limit
import Mathlib.Data.List.Basic
import Mathlib.Tactic.Ring

/-!
# Decimal digits

The digits of a number have its value, and the first of them is not zero unless
the number is. A number has at most `k` digits if it is below `10 ^ k`.
-/

namespace FluentFixtures

/-! ## Digits -/

namespace CodePoint

theorem val_digit {n : Nat} (h : n < 10) : (digit n).val = 0x30 + n :=
  val_ofNat (by omega)

theorem isDigit_digit {n : Nat} (h : n < 10) : (digit n).isDigit := by
  simp only [isDigit, val_digit h, Bool.and_eq_true, decide_eq_true_eq]
  omega

theorem digitValue_digit {n : Nat} (h : n < 10) : (digit n).digitValue = n := by
  rw [digitValue, val_digit h]
  omega

theorem digitValue_lt {c : CodePoint} (h : c.isDigit) : c.digitValue < 10 := by
  simp only [isDigit, Bool.and_eq_true, decide_eq_true_eq] at h
  rw [digitValue]
  omega

theorem digit_ne_zero {n : Nat} (h : n < 10) (hn : n ≠ 0) : digit n ≠ 0x30 := by
  intro heq
  have hval := val_digit h
  rw [heq] at hval
  have hzero : (0x30 : CodePoint).val = 0x30 := rfl
  omega

end CodePoint

namespace Text

def Digits (t : Text) : Prop := ∀ c ∈ t, c.isDigit

theorem digits_append {s t : Text} : Digits (s ++ t) ↔ s.Digits ∧ t.Digits := List.forall_mem_append

theorem digits_replicate (n : Nat) : Digits (List.replicate n 0x30) := by
  intro c hc
  rw [List.eq_of_mem_replicate hc]
  rfl

/-! ## Values -/

theorem decimalValue_foldl (t : Text) (n : Nat) :
    t.foldl (fun n c => 10 * n + c.digitValue) n = n * 10 ^ t.length + decimalValue t := by
  induction t generalizing n with
  | nil => simp [decimalValue]
  | cons c rest ih =>
    have hcons : decimalValue (c :: rest) =
        (10 * 0 + c.digitValue) * 10 ^ rest.length + decimalValue rest := ih _
    rw [List.foldl_cons, ih, hcons, List.length_cons]
    ring

theorem decimalValue_append (s t : Text) :
    decimalValue (s ++ t) = decimalValue s * 10 ^ t.length + decimalValue t := by
  rw [decimalValue, List.foldl_append, decimalValue_foldl]
  rfl

theorem decimalValue_cons (c : CodePoint) (t : Text) :
    decimalValue (c :: t) = c.digitValue * 10 ^ t.length + decimalValue t := by
  rw [← List.singleton_append, decimalValue_append]
  simp [decimalValue]

@[simp] theorem decimalValue_nil : decimalValue [] = 0 := rfl

theorem decimalValue_zeros (n : Nat) : decimalValue (List.replicate n 0x30) = 0 := by
  induction n with
  | zero => rfl
  | succ n ih =>
    have hzero : CodePoint.digitValue 0x30 = 0 := rfl
    rw [List.replicate_succ, decimalValue_cons, ih, hzero, Nat.zero_mul]

theorem decimalValue_lt {t : Text} (h : t.Digits) : decimalValue t < 10 ^ t.length := by
  induction t with
  | nil => simp
  | cons c rest ih =>
    obtain ⟨hc, hrest⟩ := List.forall_mem_cons.mp h
    have hvalue := CodePoint.digitValue_lt hc
    have hbelow := ih hrest
    calc decimalValue (c :: rest)
        = c.digitValue * 10 ^ rest.length + decimalValue rest := decimalValue_cons c rest
      _ < c.digitValue * 10 ^ rest.length + 10 ^ rest.length := by omega
      _ = (c.digitValue + 1) * 10 ^ rest.length := by ring
      _ ≤ 10 * 10 ^ rest.length := Nat.mul_le_mul_right _ hvalue
      _ = 10 ^ (c :: rest).length := by rw [List.length_cons]; ring

/-! ## The digits of a number -/

theorem pushDecimal_eq (n : Nat) (acc : Text) : pushDecimal n acc = decimal n ++ acc := by
  have hmore : ∀ acc, pushDecimal n acc = pushDecimal n [] ++ acc := by
    induction n using Nat.strong_induction_on with
    | _ n ih =>
      intro acc
      by_cases hn : n < 10
      · rw [pushDecimal, if_pos hn, pushDecimal, if_pos hn, List.singleton_append]
      · have hdiv : n / 10 < n := by omega
        have hpush (acc : Text) :
            pushDecimal n acc = pushDecimal (n / 10) (CodePoint.digit (n % 10) :: acc) := by
          rw [pushDecimal, if_neg hn]
        rw [hpush, hpush, ih _ hdiv, ih _ hdiv [CodePoint.digit (n % 10)], List.append_assoc,
          List.singleton_append]
  exact hmore acc

theorem decimal_of_lt {n : Nat} (h : n < 10) : decimal n = [CodePoint.digit n] := by
  rw [decimal, pushDecimal, if_pos h]

theorem decimal_of_ge {n : Nat} (h : 10 ≤ n) :
    decimal n = decimal (n / 10) ++ [CodePoint.digit (n % 10)] := by
  rw [decimal, pushDecimal, if_neg (by omega), pushDecimal_eq]

theorem digits_decimal (n : Nat) : (decimal n).Digits := by
  induction n using Nat.strong_induction_on with
  | _ n ih =>
    by_cases hn : n < 10
    · rw [decimal_of_lt hn]
      exact List.forall_mem_singleton.mpr (CodePoint.isDigit_digit hn)
    · have hlast := CodePoint.isDigit_digit (Nat.mod_lt n (show 10 > 0 by omega))
      rw [decimal_of_ge (by omega), digits_append]
      exact ⟨ih _ (by omega), List.forall_mem_singleton.mpr hlast⟩

theorem decimalValue_decimal (n : Nat) : decimalValue (decimal n) = n := by
  induction n using Nat.strong_induction_on with
  | _ n ih =>
    by_cases hn : n < 10
    · rw [decimal_of_lt hn, decimalValue_cons, CodePoint.digitValue_digit hn]
      simp
    · have hlast := CodePoint.digitValue_digit (Nat.mod_lt n (show 10 > 0 by omega))
      rw [decimal_of_ge (by omega), decimalValue_append, ih _ (by omega), decimalValue_cons, hlast]
      simp only [List.length_singleton, List.length_nil, decimalValue_nil]
      omega

theorem decimal_ne_nil (n : Nat) : decimal n ≠ [] := by
  by_cases hn : n < 10
  · simp [decimal_of_lt hn]
  · simp [decimal_of_ge (show 10 ≤ n by omega)]

theorem decimal_eq_cons {n : Nat} (hn : n ≠ 0) : ∃ c rest, decimal n = c :: rest ∧ c ≠ 0x30 := by
  induction n using Nat.strong_induction_on with
  | _ n ih =>
    by_cases hlt : n < 10
    · exact ⟨_, _, decimal_of_lt hlt, CodePoint.digit_ne_zero hlt hn⟩
    · obtain ⟨c, rest, hdigits, hc⟩ := ih (n / 10) (by omega) (by omega)
      exact ⟨c, rest ++ [CodePoint.digit (n % 10)], by rw [decimal_of_ge (by omega), hdigits]; rfl,
        hc⟩

theorem length_decimal_le {n k : Nat} (hk : k ≠ 0) (h : n < 10 ^ k) : (decimal n).length ≤ k := by
  induction k generalizing n with
  | zero => exact absurd rfl hk
  | succ k ih =>
    by_cases hn : n < 10
    · simp [decimal_of_lt hn]
    · have hdiv : n / 10 < 10 ^ k := by
        rw [Nat.pow_succ] at h
        omega
      have hk' : k ≠ 0 := by
        rintro rfl
        omega
      have hlength := ih hk' hdiv
      simp only [decimal_of_ge (show 10 ≤ n by omega), List.length_append, List.length_singleton]
      omega

theorem lt_of_length_decimal {n k : Nat} (h : (decimal n).length ≤ k) : n < 10 ^ k := by
  have hbelow := decimalValue_lt (digits_decimal n)
  rw [decimalValue_decimal] at hbelow
  exact hbelow.trans_le (Nat.pow_le_pow_right (by omega) h)

end Text

theorem isTooLong_eq_false_iff (n : Int) :
    isTooLong n = false ↔ (Text.decimal n.natAbs).length ≤ digitLimit := by
  have hlimit : digitLimit ≠ 0 := by decide
  unfold isTooLong integerBound
  -- The bound is too great to be computed.
  generalize digitLimit = limit at hlimit
  rw [decide_eq_false_iff_not, not_le, Nat.pow_eq]
  exact ⟨Text.length_decimal_le hlimit, Text.lt_of_length_decimal⟩

theorem isTooLong_of_lt {n : Int} {k : Nat} (hk : k ≤ digitLimit) (h : n.natAbs < 10 ^ k) :
    isTooLong n = false := by
  have hlimit : digitLimit ≠ 0 := by decide
  rw [isTooLong_eq_false_iff]
  generalize digitLimit = limit at hk hlimit ⊢
  exact Text.length_decimal_le hlimit (h.trans_le (Nat.pow_le_pow_right (by omega) hk))

end FluentFixtures
