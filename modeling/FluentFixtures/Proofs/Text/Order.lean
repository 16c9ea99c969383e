import FluentFixtures.Text.Basic
import Mathlib.Tactic.Common

/-!
# The order of texts

Texts are in order code point by code point: the order is lexicographic. Sorting
texts that differ puts them strictly upwards, and there is one way to do so.
-/

namespace FluentFixtures

theorem Text.compare_eq_compareLex : Text.compare = List.compareLex Ord.compare := by
  funext s t
  induction s generalizing t with
  | nil => cases t <;> rfl
  | cons a s ih =>
    cases t with
    | nil => rfl
    | cons b t =>
      rw [Text.compare, ih, List.compareLex_cons_cons]
      rfl

instance : Std.TransCmp Text.compare := by
  rw [Text.compare_eq_compareLex]
  infer_instance

instance : Std.LawfulEqCmp Text.compare := by
  rw [Text.compare_eq_compareLex]
  infer_instance

/-! ## Sorting by an order -/

section Sorting

variable {α : Type} {cmp : α → α → Ordering} [Std.TransCmp cmp] {l l' : List α}

theorem pairwise_mergeSort_isLE (l : List α) :
    (l.mergeSort fun a b => (cmp a b).isLE).Pairwise fun a b => (cmp a b).isLE := by
  refine List.pairwise_mergeSort (fun a b c => Std.TransCmp.isLE_trans) (fun a b => ?_) l
  have hswap : cmp b a = (cmp a b).swap := Std.OrientedCmp.eq_swap
  rw [hswap]
  cases cmp a b <;> rfl

theorem mergeSort_eq_of_perm (heq : ∀ a ∈ l, ∀ b ∈ l, cmp a b = .eq → a = b) (h : l.Perm l') :
    (l.mergeSort fun a b => (cmp a b).isLE) = l'.mergeSort fun a b => (cmp a b).isLE := by
  have hsorted : (l.mergeSort fun a b => (cmp a b).isLE).Perm l := List.mergeSort_perm l _
  have hsorted' : (l'.mergeSort fun a b => (cmp a b).isLE).Perm l' := List.mergeSort_perm l' _
  refine List.Perm.eq_of_pairwise ?_ (pairwise_mergeSort_isLE l) (pairwise_mergeSort_isLE l')
    (hsorted.trans (h.trans hsorted'.symm))
  intro a b ha hb hab hba
  refine heq a (hsorted.mem_iff.mp ha) b ?_ (Std.OrientedCmp.isLE_antisymm hab hba)
  exact h.mem_iff.mpr (hsorted'.mem_iff.mp hb)

theorem pairwise_mergeSort_lt [Std.LawfulEqCmp cmp] (h : l.Nodup) :
    (l.mergeSort fun a b => (cmp a b).isLE).Pairwise fun a b => cmp a b = .lt := by
  have hnodup : (l.mergeSort fun a b => (cmp a b).isLE).Nodup := (List.mergeSort_perm l _).nodup_iff.mpr h
  refine (pairwise_mergeSort_isLE l).imp₂ (fun a b hle hne => ?_) hnodup
  have hneq : cmp a b ≠ .eq := fun heq => hne (Std.LawfulEqCmp.eq_of_compare heq)
  exact (Ordering.isLE_iff_eq_lt_or_eq_eq.mp hle).resolve_right hneq

end Sorting

end FluentFixtures
