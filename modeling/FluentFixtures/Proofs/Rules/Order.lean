import FluentFixtures.Proofs.Rules.Distinct
import FluentFixtures.Proofs.Text.Order
import FluentFixtures.Rules.Order
import Mathlib.Data.List.Pairwise

/-!
# Sorted keys

Names are sorted strictly upwards: `sort?_names`. In what order keys are given
does not matter to how they are sorted, as long as no two are equal and each
equals itself: `sort?_perm`.
-/

namespace FluentFixtures

namespace Magnitude

instance : Std.OrientedCmp compare where
  eq_swap {a b} := by
    cases a <;> cases b <;> first | rfl | exact Std.OrientedOrd.eq_swap

instance : Std.TransCmp compare where
  isLE_trans {a b c} hab hbc := by
    cases a <;> cases b <;> cases c <;>
      first
      | rfl
      | exact Std.TransOrd.isLE_trans hab hbc
      | exact absurd hab Bool.false_ne_true
      | exact absurd hbc Bool.false_ne_true

instance : Std.LawfulEqCmp compare where
  compare_self {a} := by cases a <;> simp [compare]
  eq_of_compare {a b} h := by cases a <;> cases b <;> simp_all [compare]

end Magnitude

namespace Scalar

theorem cases_of_isNumber {a : Scalar} (h : a.isNumber = true) (hnan : a ≠ .double .nan) :
    (∃ units : ℤ, a.magnitude = .at units ∧ a.number? = some ((units : ℚ) / Double.unitsPerOne)) ∨
      ∃ negative, a = .double (.infinite negative) := by
  have hpos := Double.unitsPerOne_cast_pos.ne'
  cases a with
  | null => cases h
  | str text => cases h
  | bool b => exact .inl ⟨_, rfl, by cases b <;> simp [number?, hpos]⟩
  | int n => exact .inl ⟨_, rfl, by simp [number?, hpos]⟩
  | double d =>
    cases d with
    | nan => exact absurd rfl hnan
    | infinite negative => exact .inr ⟨negative, rfl⟩
    | finite negative rank =>
      refine .inl ⟨_, rfl, ?_⟩
      cases negative <;> simp [number?, Double.signedUnits, Double.value, neg_div]

/-- Numbers that stand at one place are equal. -/
theorem equals_of_magnitude {a b : Scalar} (ha : a.isNumber = true) (hb : b.isNumber = true)
    (hna : a ≠ .double .nan) (hnb : b ≠ .double .nan) (h : a.magnitude = b.magnitude) :
    a.Equals b := by
  rcases cases_of_isNumber ha hna with ⟨units, hunits, hx⟩ | ⟨negative, rfl⟩ <;>
    rcases cases_of_isNumber hb hnb with ⟨units', hunits', hy⟩ | ⟨negative', rfl⟩
  · obtain rfl : units = units' := by rw [hunits, hunits'] at h; exact Magnitude.at.inj h
    simp [Equals, hx, hy]
  · rw [hunits] at h
    cases negative' <;> cases h
  · rw [hunits'] at h
    cases negative <;> cases h
  · cases negative <;> cases negative' <;> first | exact equals_self _ | cases h

end Scalar

namespace Place

theorem compare_swap (a b : Place) : a.compare b = (b.compare a).swap := by
  induction a generalizing b with
  | line m =>
    cases b with
    | line n =>
      show m.compare n = (n.compare m).swap
      exact Std.OrientedCmp.eq_swap
    | word _ => rfl
    | nested _ _ => rfl
  | word s =>
    cases b with
    | line _ => rfl
    | word t =>
      show Text.compare s t = (Text.compare t s).swap
      exact Std.OrientedCmp.eq_swap
    | nested _ _ => rfl
  | nested first second hfirst hsecond =>
    cases b with
    | line _ => rfl
    | word _ => rfl
    | nested c d => rw [compare, compare, hfirst c, hsecond d, Ordering.swap_then]

theorem eq_of_compare {a b : Place} (h : a.compare b = .eq) : a = b := by
  induction a generalizing b with
  | line m =>
    cases b with
    | line n => exact congrArg line (Std.LawfulEqCmp.eq_of_compare h)
    | word _ => cases h
    | nested _ _ => cases h
  | word s =>
    cases b with
    | line _ => cases h
    | word t => exact congrArg word (Std.LawfulEqCmp.eq_of_compare h)
    | nested _ _ => cases h
  | nested first second hfirst hsecond =>
    cases b with
    | line _ => cases h
    | word _ => cases h
    | nested c d =>
      rw [compare, Ordering.then_eq_eq] at h
      rw [hfirst h.1, hsecond h.2]

instance : Std.OrientedCmp compare := ⟨fun {a b} => compare_swap a b⟩

/-- Of nested places the first parts come before the second ones. -/
theorem isLE_nested {a b c d : Place} : ((nested a b).compare (nested c d)).isLE ↔
    (a.compare c).isLE ∧ (a = c → (b.compare d).isLE) := by
  rw [compare]
  cases h : a.compare c with
  | lt =>
    have hne : a ≠ c := by
      rintro rfl
      have hself : a.compare a = .eq := Std.ReflCmp.compare_self
      rw [h] at hself
      cases hself
    simp [hne]
  | eq => simp [eq_of_compare h]
  | gt => simp

theorem isLE_trans {a b c : Place} (hab : (a.compare b).isLE) (hbc : (b.compare c).isLE) :
    (a.compare c).isLE := by
  induction a generalizing b c with
  | line m =>
    cases b with
    | line n =>
      cases c with
      | line k =>
        change (m.compare n).isLE at hab
        change (n.compare k).isLE at hbc
        show (m.compare k).isLE
        exact Std.TransCmp.isLE_trans hab hbc
      | _ => rfl
    | _ =>
      cases c with
      | line _ => exact absurd hbc Bool.false_ne_true
      | _ => rfl
  | word s =>
    cases b with
    | line _ => exact absurd hab Bool.false_ne_true
    | word t =>
      cases c with
      | line _ => exact absurd hbc Bool.false_ne_true
      | word u =>
        change (Text.compare s t).isLE at hab
        change (Text.compare t u).isLE at hbc
        show (Text.compare s u).isLE
        exact Std.TransCmp.isLE_trans hab hbc
      | nested _ _ => rfl
    | nested _ _ =>
      cases c with
      | nested _ _ => rfl
      | _ => exact absurd hbc Bool.false_ne_true
  | nested first second hfirst hsecond =>
    cases b with
    | nested first' second' =>
      cases c with
      | nested first'' second'' =>
        obtain ⟨hab₁, hab₂⟩ := isLE_nested.mp hab
        obtain ⟨hbc₁, hbc₂⟩ := isLE_nested.mp hbc
        refine isLE_nested.mpr ⟨hfirst hab₁ hbc₁, ?_⟩
        rintro rfl
        obtain rfl := eq_of_compare (Std.OrientedCmp.isLE_antisymm hab₁ hbc₁)
        exact hsecond (hab₂ rfl) (hbc₂ rfl)
      | _ => exact absurd hbc Bool.false_ne_true
    | _ => exact absurd hab Bool.false_ne_true

instance : Std.TransCmp compare := ⟨isLE_trans⟩

end Place

namespace Key

instance : Std.TransCmp compare where
  eq_swap := Place.compare_swap _ _
  isLE_trans := Place.isLE_trans

/-- Whether a double that is not a number is in a key. -/
def HoldsNaN : Key → Prop
  | double .nan => True
  | pair a b => a.HoldsNaN ∨ b.HoldsNaN
  | _ => False

theorem ofByte_injective : Function.Injective CodePoint.ofByte := by
  intro a b h
  have hval := congrArg Fin.val h
  have ha := a.toNat_lt
  have hb := b.toNat_lt
  rw [CodePoint.ofByte, CodePoint.ofByte, CodePoint.val_ofNat (by omega),
    CodePoint.val_ofNat (by omega)] at hval
  exact UInt8.toNat_inj.mp hval

theorem equals_of_scalar_place {a b : Scalar} (hcomparable : comparable a b = true)
    (ha : ¬ HoldsNaN a) (hb : ¬ HoldsNaN b) (h : place a = place b) : a.Equals b := by
  rw [comparable, Bool.or_eq_true, Bool.and_eq_true, Bool.and_eq_true] at hcomparable
  rcases hcomparable with ⟨hsa, hsb⟩ | ⟨hna, hnb⟩
  · cases a <;> cases hsa
    cases b <;> cases hsb
    obtain rfl := Place.word.inj h
    exact Scalar.equals_self _
  · have hplace {s : Scalar} (hs : s.isNumber = true) : place s = .line s.magnitude := by
      cases s <;> first | rfl | cases hs
    rw [hplace hna, hplace hnb] at h
    refine Scalar.equals_of_magnitude hna hnb ?_ ?_ (Place.line.inj h)
    · rintro rfl
      exact ha trivial
    · rintro rfl
      exact hb trivial

theorem equals_of_place {a b : Key} (hcomparable : comparable a b = true) (ha : ¬ a.HoldsNaN)
    (hb : ¬ b.HoldsNaN) (h : a.place = b.place) : a.Equals b := by
  induction a generalizing b with
  | scalar s =>
    cases b with
    | scalar t => exact .scalar (equals_of_scalar_place hcomparable ha hb h)
    | _ => cases hcomparable
  | bytes value =>
    cases b with
    | bytes value' =>
      obtain rfl := ofByte_injective.list_map (Place.word.inj h)
      exact .bytes value
    | _ => cases hcomparable
  | date day =>
    cases b with
    | date day' =>
      obtain rfl := Magnitude.at.inj (Place.line.inj h)
      exact .date day
    | _ => cases hcomparable
  | moment m =>
    cases b with
    | moment n =>
      exact .moment ⟨Magnitude.at.inj (Place.line.inj h), of_decide_eq_true hcomparable⟩
    | _ => cases hcomparable
  | pair first second hfirst hsecond =>
    cases b with
    | pair first' second' =>
      obtain ⟨hplace, hplace'⟩ := Place.nested.inj h
      obtain ⟨hna, hna'⟩ := not_or.mp ha
      obtain ⟨hnb, hnb'⟩ := not_or.mp hb
      rw [comparable] at hcomparable
      split at hcomparable
      · next hsame =>
        refine .pair (same_iff_equals.mp hsame) ?_
        rcases Bool.or_eq_true _ _ |>.mp hcomparable with hsame' | hcomparable'
        · exact same_iff_equals.mp hsame'
        · exact hsecond hcomparable' hna' hnb' hplace'
      · next hsame => exact absurd (same_iff_equals.mpr (hfirst hcomparable hna hnb hplace)) hsame
    | _ => cases hcomparable

theorem same_comm (a b : Key) : same a b = same b a := by
  simp only [same, decide_eq_decide]
  exact eq_comm

theorem comparable_comm (a b : Key) : comparable a b = comparable b a := by
  induction a generalizing b with
  | scalar s =>
    cases b with
    | scalar t => simp only [comparable, Bool.and_comm]
    | _ => rfl
  | bytes value => cases b <;> rfl
  | date day => cases b <;> rfl
  | moment m =>
    cases b with
    | moment n => simp only [comparable, eq_comm]
    | _ => rfl
  | pair first second hfirst hsecond =>
    cases b with
    | pair first' second' =>
      rw [comparable, comparable, same_comm first first', same_comm second second',
        hfirst first', hsecond second']
    | _ => rfl

theorem exists_names {keys : List Key} (h : ∀ key ∈ keys, key.isString = true) :
    ∃ names : List Text, keys = names.map .str := by
  induction keys with
  | nil => exact ⟨[], rfl⟩
  | cons key keys ih =>
    obtain ⟨hkey, hkeys⟩ := List.forall_mem_cons.mp h
    obtain ⟨names, rfl⟩ := ih hkeys
    cases key with
    | scalar s =>
      cases s with
      | str name => exact ⟨name :: names, rfl⟩
      | _ => cases hkey
    | _ => cases hkey

theorem allComparable_iff {keys : List Key} :
    allComparable keys = true ↔ keys.Pairwise fun a b => comparable a b = true := by
  induction keys with
  | nil => simp [allComparable]
  | cons key keys ih => rw [allComparable, Bool.and_eq_true, ih, List.all_eq_true, List.pairwise_cons]

theorem allComparable_perm {keys keys' : List Key} (h : keys.Perm keys') :
    allComparable keys = allComparable keys' := by
  rw [Bool.eq_iff_iff, allComparable_iff, allComparable_iff]
  exact h.pairwise_iff fun hab => comparable_comm _ _ ▸ hab

end Key

namespace KeyMap

variable {α : Type} {map : KeyMap α}

/-- Whether no two keys of a map are equal, but for those that do not equal themselves. -/
def Keyed (map : KeyMap α) : Prop := map.Pairwise fun a b => a.1.Equals b.1 → a.1.HoldsNaN

theorem Distinct.keyed (h : map.Distinct) : map.Keyed := h.imp fun hne hequals => absurd hequals hne

theorem Keyed.distinct (h : map.Keyed) (hnan : ∀ entry ∈ map, ¬ entry.1.HoldsNaN) :
    map.Distinct :=
  h.imp_of_mem fun {a _} ha _ hkeyed hequals => hnan a ha (hkeyed hequals)

end KeyMap

namespace KeySet

variable {keys keys' : KeySet}

theorem sort?_map_str (names : List Text) : sort? (names.map .str) =
    some ((names.mergeSort fun s t => (Text.compare s t).isLE).map .str) := by
  have hcomparable : Key.allComparable (names.map .str) = true :=
    Key.allComparable_iff.mpr (List.pairwise_map.mpr (List.pairwise_of_forall fun _ _ => rfl))
  have hsort : (names.mergeSort fun s t => (Text.compare s t).isLE).map Key.str =
      (names.map Key.str).mergeSort fun a b => (Key.compare a b).isLE :=
    List.map_mergeSort fun s _ t _ => rfl
  rw [sort?, hcomparable, if_pos rfl, hsort]

theorem perm_of_sort? {sorted : List Key} (h : sort? keys = some sorted) : sorted.Perm keys := by
  unfold sort? at h
  split at h
  · obtain rfl := Option.some.inj h
    exact List.mergeSort_perm keys _
  · cases h

theorem sort?_perm (h : keys.Perm keys') (hdistinct : keys.Pairwise fun a b => ¬ a.Equals b)
    (hnan : ∀ key ∈ keys, ¬ key.HoldsNaN) : sort? keys' = sort? keys := by
  rw [sort?, sort?, ← Key.allComparable_perm h]
  by_cases hcomparable : Key.allComparable keys = true
  · rw [hcomparable, if_pos rfl, if_pos rfl]
    refine congrArg some (mergeSort_eq_of_perm (fun a ha b hb hplace => ?_) h).symm
    have hsymm : Std.Symm fun a b : Key => a.comparable b = true ∧ ¬ a.Equals b :=
      ⟨fun a b ⟨hab, hne⟩ => ⟨Key.comparable_comm a b ▸ hab, fun hba => hne hba.symm⟩⟩
    have hpairs := (Key.allComparable_iff.mp hcomparable).and hdistinct
    by_contra hne
    obtain ⟨hab, hneq⟩ := hpairs.forall ha hb hne
    exact hneq (Key.equals_of_place hab (hnan a ha) (hnan b hb) (Place.eq_of_compare hplace))
  · rw [if_neg hcomparable, if_neg hcomparable]

end KeySet

end FluentFixtures
