import FluentFixtures.Files.Search
import FluentFixtures.Proofs.Text.Order

/-!
# The order of paths

Paths are in order name by name, so the order is lexicographic as that of texts
is. Paths that start at one place are sorted strictly upwards, which leaves each
of them once: `pairwise_sorted`.
-/

namespace FluentFixtures

namespace Files

theorem Path.compareNames_eq_compareLex : Path.compareNames = List.compareLex Text.compare := by
  funext s t
  induction s generalizing t with
  | nil => cases t <;> rfl
  | cons a s ih =>
    cases t with
    | nil => rfl
    | cons b t => rw [Path.compareNames, ih, List.compareLex_cons_cons]

instance : Std.TransCmp Path.compareNames := by
  rw [Path.compareNames_eq_compareLex]
  infer_instance

instance : Std.LawfulEqCmp Path.compareNames := by
  rw [Path.compareNames_eq_compareLex]
  infer_instance

theorem Path.compareNames_append (around s t : List Text) :
    compareNames (around ++ s) (around ++ t) = compareNames s t := by
  induction around with
  | nil => rfl
  | cons name around ih =>
    have hname : Text.compare name name = .eq := Std.ReflCmp.compare_self
    rw [List.cons_append, List.cons_append, compareNames, hname, ih]
    rfl

/-! ## Each path once -/

section Reps

variable {α : Type} [BEq α]

theorem eraseReps_loop (a : α) (l acc : List α) :
    List.eraseRepsBy.loop (· == ·) a l acc = acc.reverse ++ List.eraseReps (a :: l) := by
  rw [List.eraseReps, List.eraseRepsBy]
  induction l generalizing a acc with
  | nil => simp [List.eraseRepsBy.loop]
  | cons b l ih =>
    rw [List.eraseRepsBy.loop, List.eraseRepsBy.loop]
    cases a == b with
    | true => exact ih a acc
    | false =>
      show List.eraseRepsBy.loop (· == ·) b l (a :: acc) =
        acc.reverse ++ List.eraseRepsBy.loop (· == ·) b l [a]
      rw [ih b (a :: acc), ih b [a]]
      simp

variable [LawfulBEq α]

theorem eraseReps_cons_self (a : α) (l : List α) :
    (a :: a :: l).eraseReps = (a :: l).eraseReps := by
  rw [List.eraseReps, List.eraseRepsBy, List.eraseRepsBy.loop, beq_self_eq_true]
  rfl

theorem eraseReps_cons_of_ne {a b : α} (h : a ≠ b) (l : List α) :
    (a :: b :: l).eraseReps = a :: (b :: l).eraseReps := by
  rw [List.eraseReps, List.eraseRepsBy, List.eraseRepsBy.loop, beq_false_of_ne h]
  exact eraseReps_loop b l [a]

theorem mem_eraseReps {x : α} {l : List α} : x ∈ l.eraseReps ↔ x ∈ l := by
  induction l with
  | nil => rfl
  | cons a l ih =>
    cases l with
    | nil => rfl
    | cons b l =>
      by_cases h : a = b
      · subst h
        rw [eraseReps_cons_self, ih]
        simp
      · rw [eraseReps_cons_of_ne h, List.mem_cons, ih, List.mem_cons (a := x) (b := a)]

theorem pairwise_eraseReps {cmp : α → α → Ordering} [Std.TransCmp cmp] {l : List α}
    (hsorted : l.Pairwise fun a b => (cmp a b).isLE)
    (heq : ∀ a ∈ l, ∀ b ∈ l, cmp a b = .eq → a = b) :
    l.eraseReps.Pairwise fun a b => cmp a b = .lt := by
  induction l with
  | nil => exact List.Pairwise.nil
  | cons a l ih =>
    have hrest := ih hsorted.of_cons fun x hx y hy =>
      heq x (List.mem_cons_of_mem a hx) y (List.mem_cons_of_mem a hy)
    cases l with
    | nil => exact List.pairwise_singleton _ a
    | cons b l =>
      by_cases h : a = b
      · subst h
        rwa [eraseReps_cons_self]
      · have hab : cmp a b = .lt := by
          have hle := List.rel_of_pairwise_cons hsorted List.mem_cons_self
          have hne : cmp a b ≠ .eq := fun e =>
            h (heq a List.mem_cons_self b (List.mem_cons_of_mem a List.mem_cons_self) e)
          exact (Ordering.isLE_iff_eq_lt_or_eq_eq.mp hle).resolve_right hne
        rw [eraseReps_cons_of_ne h]
        refine List.pairwise_cons.mpr ⟨?_, hrest⟩
        intro x hx
        rcases List.mem_cons.mp (mem_eraseReps.mp hx) with rfl | hx
        · exact hab
        · exact Std.TransCmp.lt_of_lt_of_isLE hab (List.rel_of_pairwise_cons hsorted.of_cons hx)

end Reps

namespace Path

def compare (p q : Path) : Ordering := compareNames p.names q.names

instance : Std.TransCmp compare where
  eq_swap {p q} := by
    show compareNames p.names q.names = (compareNames q.names p.names).swap
    exact Std.OrientedCmp.eq_swap
  isLE_trans {p q r} hpq hqr := by
    show (compareNames p.names r.names).isLE
    exact Std.TransCmp.isLE_trans (show (compareNames p.names q.names).isLE from hpq) hqr

theorem eq_of_compare {p q : Path} (hstart : p.absolute = q.absolute) (h : p.compare q = .eq) :
    p = q := by
  have hnames : p.names = q.names := Std.LawfulEqCmp.eq_of_compare h
  cases p
  cases q
  simp_all

@[simp] theorem name_child (p : Path) (name : Text) : (p.child name).name = name := by
  simp [Path.name, child]

theorem compare_child (p : Path) (s t : Text) :
    (p.child s).compare (p.child t) = Text.compare s t := by
  show compareNames (p.names ++ [s]) (p.names ++ [t]) = _
  rw [compareNames_append, compareNames, compareNames]
  cases Text.compare s t <;> rfl

end Path

namespace FileSystem

variable {paths : List Path}

theorem mem_sorted {p : Path} : p ∈ sorted paths ↔ p ∈ paths := by
  rw [sorted, mem_eraseReps, List.mem_mergeSort]

theorem pairwise_sorted (hstart : ∀ p ∈ paths, ∀ q ∈ paths, p.absolute = q.absolute) :
    (sorted paths).Pairwise fun p q => p.compare q = .lt := by
  have hsorted : (paths.mergeSort Path.le).Pairwise fun p q => (p.compare q).isLE :=
    pairwise_mergeSort_isLE paths
  refine pairwise_eraseReps hsorted ?_
  intro p hp q hq
  rw [List.mem_mergeSort] at hp hq
  exact Path.eq_of_compare (hstart p hp q hq)

end FileSystem

end Files

end FluentFixtures
