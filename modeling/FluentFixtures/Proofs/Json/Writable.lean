import FluentFixtures.Proofs.Json.Storable
import FluentFixtures.Proofs.Text.Decimal

/-!
# Trees that are written

A tree is `Writable` if its doubles are finite and its integers are not too long,
whatever its strings and names hold. Then only the indent can keep it from having
a document: `exists_write`.
-/

namespace FluentFixtures

def Scalar.Writable : Scalar → Prop
  | int n => (Text.decimal n.natAbs).length ≤ digitLimit
  | double d => d.isFinite = true
  | _ => True

def Tree.Writable (t : Tree) : Prop := t.Every (Node Scalar.Writable fun _ => True)

namespace Json

open FluentFixtures.Tree (Node)

theorem numberFits_iff (value : Scalar) : NumberFits value ↔ value.Writable := by
  cases value with
  | int n => simp [NumberFits, scalarError?, Scalar.Writable, ← isTooLong_eq_false_iff]
  | double d => cases h : d.isFinite <;> simp [NumberFits, scalarError?, Scalar.Writable, h]
  | null | bool b | str s => simp [NumberFits, scalarError?, Scalar.Writable]

theorem numbersFit_iff (t : Tree) : NumbersFit t ↔ t.Writable := by
  have hleaf : NumberFits = Scalar.Writable := funext fun value => propext (numberFits_iff value)
  rw [NumbersFit, hleaf, Tree.Writable]

variable {indent : Int} {t : Tree}

theorem error?_of_writable (ht : t.Writable) (hindents : Indents indent t) :
    error? indent t = none := by
  unfold error?
  split
  · rfl
  · next hleaf =>
    have hindent := hindents.resolve_right fun ⟨s, hs⟩ => hleaf s hs
    rw [hindent, Option.none_or, numberError?_eq_none_iff, numbersFit_iff]
    exact ht

theorem exists_write (ht : t.Writable) (hindents : Indents indent t) :
    ∃ document, write indent t = .ok document := by
  rw [write, error?_of_writable ht hindents]
  exact ⟨_, rfl⟩

theorem write_of_not_indents (h : ¬ Indents indent t) :
    ∃ e, indentError? indent = some e ∧ write indent t = .error e := by
  obtain ⟨herror, hsome⟩ := error?_of_not_indents h
  obtain ⟨e, he⟩ := Option.isSome_iff_exists.mp hsome
  rw [write, herror, he]
  exact ⟨e, rfl, rfl⟩

end Json

end FluentFixtures
