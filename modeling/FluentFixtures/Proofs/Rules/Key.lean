import FluentFixtures.Proofs.Number.Nearest
import FluentFixtures.Rules.Table

/-!
# Equal keys

Scalars are equal if they are one number, whatever the kind it is written as, or
if none is a number and they are the same: `Scalar.Equals`. Keys are equal if
their parts are: `Key.Equals`. The keys that rule tables take for one are those,
`Key.same_iff_equals`; so membership in a set of keys
and look-up in a map of keys go by equality, and `RuleTable.Implies` says with it
which types the position of a node implies.
-/

namespace FluentFixtures

namespace Scalar

/-- The number that a scalar is; truth values are one and zero. -/
def number? : Scalar → Option ℚ
  | .bool b => some (if b then 1 else 0)
  | .int n => some n
  | .double (.finite negative rank) =>
    some (if negative then -Double.value rank else Double.value rank)
  | _ => none

/-- Whether two scalars are one number, or no numbers and the same. -/
def Equals (a b : Scalar) : Prop :=
  match a.number?, b.number? with
  | some x, some y => x = y
  | none, none => a = b
  | _, _ => False

/-! ## Integers among the numbers -/

theorem natDiv_eq_intCast_iff {u d : ℕ} (hd : 0 < d) (m : ℤ) :
    (u : ℚ) / d = m ↔ u % d = 0 ∧ ((u / d : ℕ) : ℤ) = m := by
  have hd' : (d : ℚ) ≠ 0 := Nat.cast_ne_zero.mpr hd.ne'
  have hcast : (u : ℚ) / d = m ↔ (u : ℤ) = m * d := by
    rw [div_eq_iff hd']
    exact_mod_cast Iff.rfl
  rw [hcast]
  constructor
  · intro h
    constructor
    · have hmod : ((u % d : ℕ) : ℤ) = 0 := by rw [Int.natCast_mod, h, Int.mul_emod_left]
      exact_mod_cast hmod
    · rw [Int.natCast_div, h, Int.mul_ediv_cancel _ (Int.natCast_ne_zero.mpr hd.ne')]
  · rintro ⟨hmod, rfl⟩
    have hwhole := Nat.div_add_mod u d
    rw [hmod, Nat.add_zero, Nat.mul_comm] at hwhole
    exact_mod_cast hwhole.symm

theorem int?_eq_some_iff {s : Scalar} {n : ℤ} : s.int? = some n ↔ s.number? = some (n : ℚ) := by
  cases s with
  | null => simp [int?, number?]
  | str text => simp [int?, number?]
  | bool b => cases b <;> simp [int?, number?] <;> norm_cast
  | int m => simp [int?, number?]
  | double d =>
    cases d with
    | infinite negative => simp [int?, number?]
    | nan => simp [int?, number?]
    | finite negative rank =>
      have hunits := natDiv_eq_intCast_iff (u := Double.units rank) Double.unitsPerOne_pos
      rw [int?, number?, Option.some.injEq]
      cases negative with
      | false =>
        rw [if_neg Bool.false_ne_true, Double.value, hunits]
        simp [Double.truncate]
      | true =>
        rw [if_pos rfl, neg_eq_iff_eq_neg, Double.value, ← Int.cast_neg, hunits]
        simp [Double.truncate, neg_eq_iff_eq_neg]

theorem number?_of_int?_eq_none {s : Scalar} (h : s.int? = none) {x : ℚ}
    (hx : s.number? = some x) : ∃ negative rank, s = .double (.finite negative rank) ∧
      x = if negative then -Double.value rank else Double.value rank := by
  cases s with
  | null => cases hx
  | str text => cases hx
  | bool b => cases h
  | int m => cases h
  | double d =>
    cases d with
    | infinite negative => cases hx
    | nan => cases hx
    | finite negative rank => exact ⟨negative, rank, rfl, (Option.some.inj hx).symm⟩

theorem value_nonneg (rank : ℕ) : 0 ≤ Double.value rank :=
  div_nonneg (Nat.cast_nonneg _) Double.unitsPerOne_cast_pos.le

/-- Numbers that are no integers are equal only as one double: none of them is a zero. -/
theorem eq_of_number? {a b : Scalar} (ha : a.int? = none) (hb : b.int? = none) {x : ℚ}
    (hx : a.number? = some x) (hx' : b.number? = some x) : a = b := by
  obtain ⟨negative, rank, rfl, hvalue⟩ := number?_of_int?_eq_none ha hx
  obtain ⟨negative', rank', rfl, hvalue'⟩ := number?_of_int?_eq_none hb hx'
  have hzero : x ≠ 0 := by
    rintro rfl
    rw [← Int.cast_zero, ← int?_eq_some_iff, ha] at hx
    cases hx
  have hpos := value_nonneg rank
  have hpos' := value_nonneg rank'
  have hrank (h : Double.value rank = Double.value rank') : rank = rank' :=
    Fin.ext (Double.strictMono_value.injective h)
  cases negative <;> cases negative' <;> simp at hvalue hvalue'
  · rw [hrank (hvalue.symm.trans hvalue')]
  · exact absurd (by linarith) hzero
  · exact absurd (by linarith) hzero
  · rw [hrank (neg_injective (hvalue.symm.trans hvalue'))]

theorem Equals.symm {a b : Scalar} (h : a.Equals b) : b.Equals a := by
  unfold Equals at *
  cases ha : a.number? with
  | none =>
    cases hb : b.number? with
    | none => rw [ha, hb] at h; exact h.symm
    | some y => rw [ha, hb] at h; exact h
  | some x =>
    cases hb : b.number? with
    | none => rw [ha, hb] at h; exact h
    | some y => rw [ha, hb] at h; exact h.symm

/-! ## Keys -/

theorem canonical_of_some {s : Scalar} {n : ℤ} (h : s.int? = some n) : s.canonical = .int n := by
  rw [canonical, h]

theorem canonical_of_none {s : Scalar} (h : s.int? = none) : s.canonical = s := by
  rw [canonical, h]

theorem same_iff {a b : Scalar} : same a b = true ↔ a.canonical = b.canonical := decide_eq_true_iff

theorem same_of_int? {a b : Scalar} {m : ℤ} (ha : a.int? = some m) :
    same a b = true ↔ a.Equals b := by
  rw [same_iff, canonical_of_some ha]
  cases hb : b.int? with
  | some n => simp [canonical_of_some hb, Equals, int?_eq_some_iff.mp ha, int?_eq_some_iff.mp hb]
  | none =>
    have hint : .int m ≠ b := by
      rintro rfl
      cases hb
    cases hx : b.number? with
    | none => simp [canonical_of_none hb, Equals, int?_eq_some_iff.mp ha, hx, hint]
    | some x =>
      have hvalue : (m : ℚ) ≠ x := by
        rintro rfl
        rw [← int?_eq_some_iff, hb] at hx
        cases hx
      simp [canonical_of_none hb, Equals, int?_eq_some_iff.mp ha, hx, hint, hvalue]

theorem same_iff_equals {a b : Scalar} : same a b = true ↔ a.Equals b := by
  cases ha : a.int? with
  | some m => exact same_of_int? ha
  | none =>
    cases hb : b.int? with
    | some n =>
      rw [same_comm, same_of_int? hb]
      exact ⟨Equals.symm, Equals.symm⟩
    | none =>
      rw [same_iff, canonical_of_none ha, canonical_of_none hb, Equals]
      constructor
      · rintro rfl
        cases a.number? <;> rfl
      · intro h
        cases hx : a.number? with
        | none =>
          cases hy : b.number? with
          | none => simpa [hx, hy] using h
          | some y => simp [hx, hy] at h
        | some x =>
          cases hy : b.number? with
          | none => simp [hx, hy] at h
          | some y =>
            obtain rfl : x = y := by simpa [hx, hy] using h
            exact eq_of_number? ha hb hx hy

theorem equals_str_iff {text : Text} {b : Scalar} : (str text).Equals b ↔ b = .str text := by
  unfold Equals
  cases hb : b.number? with
  | none => exact eq_comm
  | some y =>
    have hne : b ≠ .str text := by
      rintro rfl
      cases hb
    simp [number?, hne]

end Scalar

namespace Moment

/-- Whether two moments are one instant, told by clocks of one sort. -/
def Equals (m n : Moment) : Prop :=
  m.instant = n.instant ∧ m.offset.isSome = n.offset.isSome

theorem canonical_eq_iff {m n : Moment} : m.canonical = n.canonical ↔ m.Equals n := by
  rw [canonical, canonical, Moment.mk.injEq, Equals]
  refine and_congr_right fun _ => ?_
  cases m.offset <;> cases n.offset <;> simp

end Moment

namespace Key

/-- Whether two keys are of one sort and equal, part by part. -/
inductive Equals : Key → Key → Prop where
  | scalar {a b : Scalar} (equals : a.Equals b) : Equals (scalar a) (scalar b)
  | bytes (value : Bytes) : Equals (bytes value) (bytes value)
  | date (day : ℤ) : Equals (date day) (date day)
  | moment {m n : Moment} (equals : m.Equals n) : Equals (moment m) (moment n)
  | pair {a b c d : Key} (first : Equals a c) (second : Equals b d) :
    Equals (pair a b) (pair c d)

theorem canonical_eq_of_equals {a b : Key} (h : Equals a b) : a.canonical = b.canonical := by
  induction h with
  | scalar equals =>
    exact congrArg Key.scalar (Scalar.same_iff.mp (Scalar.same_iff_equals.mpr equals))
  | bytes _ => rfl
  | date _ => rfl
  | moment equals => exact congrArg Key.moment (Moment.canonical_eq_iff.mpr equals)
  | pair _ _ first second => exact congrArg₂ Key.pair first second

theorem equals_of_canonical_eq {a b : Key} (h : a.canonical = b.canonical) : Equals a b := by
  induction a generalizing b with
  | scalar s =>
    cases b with
    | scalar t =>
      exact .scalar (Scalar.same_iff_equals.mp (Scalar.same_iff.mpr (Key.scalar.inj h)))
    | _ => cases h
  | bytes value =>
    cases b <;> cases h
    exact .bytes value
  | date day =>
    cases b <;> cases h
    exact .date day
  | moment m =>
    cases b with
    | moment n => exact .moment (Moment.canonical_eq_iff.mp (Key.moment.inj h))
    | _ => cases h
  | pair first second hfirst hsecond =>
    cases b with
    | pair first' second' =>
      obtain ⟨h, h'⟩ := Key.pair.inj h
      exact .pair (hfirst h) (hsecond h')
    | _ => cases h

theorem same_iff_equals {a b : Key} : same a b = true ↔ a.Equals b := by
  rw [same, decide_eq_true_iff]
  exact ⟨equals_of_canonical_eq, canonical_eq_of_equals⟩

theorem Equals.symm {a b : Key} (h : a.Equals b) : b.Equals a :=
  equals_of_canonical_eq (canonical_eq_of_equals h).symm

theorem equals_scalar_iff {a b : Scalar} : (scalar a).Equals (scalar b) ↔ a.Equals b :=
  ⟨fun h => by cases h with | scalar equals => exact equals, .scalar⟩

theorem equals_str_iff {text : Text} {b : Key} : (str text).Equals b ↔ b = .str text := by
  constructor
  · intro h
    cases h with
    | scalar equals => exact congrArg Key.scalar (Scalar.equals_str_iff.mp equals)
  · rintro rfl
    exact .scalar (Scalar.equals_str_iff.mpr rfl)

end Key

theorem ParentKey.index_equals_iff {index : Nat} {key : Scalar} :
    (ParentKey.index index).scalar.Equals key ↔ key.number? = some (index : ℚ) := by
  unfold Scalar.Equals
  cases hkey : key.number? with
  | none => simp [ParentKey.scalar, Scalar.number?]
  | some x => simp [ParentKey.scalar, Scalar.number?, eq_comm]

theorem KeySet.member_iff {key : Key} {keys : KeySet} :
    member key keys = true ↔ ∃ m ∈ keys, key.Equals m := by
  rw [member, List.any_eq_true]
  exact exists_congr fun m => and_congr_right fun _ => Key.same_iff_equals

theorem KeySet.member_str_iff {text : Text} {keys : KeySet} :
    member (.str text) keys = true ↔ .str text ∈ keys := by
  rw [member_iff]
  simp only [Key.equals_str_iff, exists_eq_right]

namespace KeyMap

variable {α : Type}

/-- Whether a map has a value under a key equal to the one given, which is the first such key. -/
def Holds (map : KeyMap α) (key : Key) (value : α) : Prop :=
  ∃ before spelled after, map = before ++ (spelled, value) :: after ∧ key.Equals spelled ∧
    ∀ earlier ∈ before, ¬ key.Equals earlier.1

theorem get?_eq_some_iff {key : Key} {map : KeyMap α} {value : α} :
    get? key map = some value ↔ map.Holds key value := by
  rw [get?, Option.map_eq_some_iff]
  constructor
  · rintro ⟨⟨spelled, value⟩, hfind, rfl⟩
    obtain ⟨hsame, before, after, hmap, hbefore⟩ := List.find?_eq_some_iff_append.mp hfind
    refine ⟨before, spelled, after, hmap, Key.same_iff_equals.mp hsame, ?_⟩
    intro earlier hmem hequals
    have hearlier := hbefore earlier hmem
    rw [Key.same_iff_equals.mpr hequals] at hearlier
    cases hearlier
  · rintro ⟨before, spelled, after, rfl, hequals, hbefore⟩
    refine ⟨(spelled, value), ?_, rfl⟩
    refine List.find?_eq_some_iff_append.mpr
      ⟨Key.same_iff_equals.mpr hequals, before, after, rfl, ?_⟩
    intro earlier hmem
    rw [Bool.not_eq_true', Bool.eq_false_iff, ne_eq, Key.same_iff_equals]
    exact hbefore earlier hmem

end KeyMap

namespace RuleTable

/-- Whether the type is implied where a node was reached under the key: the type is unambiguous and
the key not exempt, or the key has a set of its own with the type. -/
def Implies (rules : RuleTable) (type : Text) (key : ParentKey) : Prop :=
  ((¬ ∃ m ∈ rules.exempt, (key.scalar : Key).Equals m) ∧ .str type ∈ rules.unambiguous) ∨
    ∃ types, rules.positional.Holds key.scalar types ∧ .str type ∈ types

theorem implies_iff {rules : RuleTable} {type : Text} {key : ParentKey} :
    rules.implies type key.scalar = true ↔ rules.Implies type key := by
  have hpositional : KeySet.member (.str type) ((rules.positional.get? key.scalar).getD []) = true ↔
      ∃ types, rules.positional.Holds key.scalar types ∧ .str type ∈ types := by
    simp only [← KeyMap.get?_eq_some_iff]
    cases rules.positional.get? key.scalar with
    | none => simp [KeySet.member]
    | some types => simp [KeySet.member_str_iff]
  rw [implies, Bool.or_eq_true, hpositional, Bool.and_eq_true, Bool.not_eq_true',
    Bool.eq_false_iff, ne_eq, KeySet.member_iff, KeySet.member_str_iff, Implies]

end RuleTable

end FluentFixtures
