import FluentFixtures.Json.Writer
import FluentFixtures.Proofs.Text.Surrogate
import FluentFixtures.Proofs.Tree.Every

/-!
# Trees that a document can hold

A tree is `Encodable` if its names are distinct, its strings and names are joined
and its integers are not too long. A document can hold it if its doubles are
finite too: then it is `Storable`. What keeps the writer from an encodable tree
is the first double that is not finite: `numberError?_eq`.
-/

namespace FluentFixtures

namespace Scalar

/-- Whether a value that is no double has a text that denotes it. -/
def Encodable : Scalar → Prop
  | int n => isTooLong n = false
  | str t => t.Joined
  | _ => True

/-- Whether a value that is a double is finite. -/
def Finite : Scalar → Prop
  | double d => d.isFinite = true
  | _ => True

instance : DecidablePred Encodable
  | null => inferInstanceAs (Decidable True)
  | bool _ => inferInstanceAs (Decidable True)
  | int n => inferInstanceAs (Decidable (isTooLong n = false))
  | double _ => inferInstanceAs (Decidable True)
  | str t => inferInstanceAs (Decidable t.Joined)

instance : DecidablePred Finite
  | null => inferInstanceAs (Decidable True)
  | bool _ => inferInstanceAs (Decidable True)
  | int _ => inferInstanceAs (Decidable True)
  | double d => inferInstanceAs (Decidable (d.isFinite = true))
  | str _ => inferInstanceAs (Decidable True)

end Scalar

namespace Tree

/-- Whether the names of a node are distinct and joined. -/
def NamesEncodable (names : List Text) : Prop := names.Nodup ∧ ∀ name ∈ names, name.Joined

instance : DecidablePred NamesEncodable := fun _ => inferInstanceAs (Decidable (_ ∧ _))

def Encodable (t : Tree) : Prop := t.Every (Node Scalar.Encodable NamesEncodable)

def Finite (t : Tree) : Prop := t.Every (Node Scalar.Finite fun _ => True)

instance (t : Tree) : Decidable t.Encodable :=
  inferInstanceAs (Decidable (t.Every (Node Scalar.Encodable NamesEncodable)))

instance (t : Tree) : Decidable t.Finite :=
  inferInstanceAs (Decidable (t.Every (Node Scalar.Finite fun _ => True)))

/-- Whether a document can hold a tree. -/
structure Storable (t : Tree) : Prop where
  encodable : t.Encodable
  finite : t.Finite

mutual

def doubles : Tree → List Double
  | .leaf (.double d) => [d]
  | .leaf _ => []
  | .seq items => itemDoubles items
  | .keyed fields => fieldDoubles fields

def itemDoubles : List Tree → List Double
  | [] => []
  | t :: rest => doubles t ++ itemDoubles rest

def fieldDoubles : List (Text × Tree) → List Double
  | [] => []
  | (_, t) :: rest => doubles t ++ fieldDoubles rest

end

def nonFinite? (t : Tree) : Option Double := t.doubles.find? fun d => !d.isFinite

mutual

theorem finite_iff_doubles : ∀ t : Tree, t.Finite ↔ ∀ d ∈ t.doubles, d.isFinite = true
  | .leaf value => by cases value <;> simp [Finite, Every, Node, Scalar.Finite, doubles]
  | .seq items => by
    rw [doubles, ← everyFinite_iff_itemDoubles items]
    exact and_iff_right trivial
  | .keyed fields => by
    rw [doubles, ← everyFinite_iff_fieldDoubles fields]
    exact and_iff_right trivial

theorem everyFinite_iff_itemDoubles : ∀ items : List Tree,
    EveryItem (Node Scalar.Finite fun _ => True) items ↔
      ∀ d ∈ itemDoubles items, d.isFinite = true
  | [] => by simp [EveryItem, itemDoubles]
  | t :: rest => by
    rw [itemDoubles, List.forall_mem_append, ← finite_iff_doubles t,
      ← everyFinite_iff_itemDoubles rest]
    rfl

theorem everyFinite_iff_fieldDoubles : ∀ fields : List (Text × Tree),
    EveryField (Node Scalar.Finite fun _ => True) fields ↔
      ∀ d ∈ fieldDoubles fields, d.isFinite = true
  | [] => by simp [EveryField, fieldDoubles]
  | (_, t) :: rest => by
    rw [fieldDoubles, List.forall_mem_append, ← finite_iff_doubles t,
      ← everyFinite_iff_fieldDoubles rest]
    rfl

end

theorem nonFinite?_eq_none_iff (t : Tree) : t.nonFinite? = none ↔ t.Finite := by
  rw [finite_iff_doubles, nonFinite?, List.find?_eq_none]
  simp

end Tree

namespace Json

open FluentFixtures.Tree (Node NamesEncodable doubles itemDoubles fieldDoubles Every EveryItem EveryField)

/-- The fault of the first of some doubles that has one. -/
def doubleError? (ds : List Double) : Option WriteError :=
  (ds.find? fun d => !d.isFinite).map .nonFinite

theorem doubleError?_append (ds es : List Double) :
    doubleError? (ds ++ es) = (doubleError? ds).or (doubleError? es) := by
  rw [doubleError?, List.find?_append]
  cases h : ds.find? fun d => !d.isFinite <;> simp [doubleError?, h]

mutual

theorem numberError?_eq : ∀ {t : Tree}, t.Encodable → numberError? t = doubleError? t.doubles
  | .leaf value, h => by
    cases value with
    | double d =>
      cases hd : d.isFinite <;> simp [numberError?, scalarError?, doubles, doubleError?, hd]
    | int n =>
      have hn : isTooLong n = false := h
      simp [numberError?, scalarError?, doubles, doubleError?, hn]
    | null | bool b | str s => rfl
  | .seq _, h => by rw [numberError?, doubles, itemsError?_eq h.2]
  | .keyed _, h => by rw [numberError?, doubles, fieldsError?_eq h.2]

theorem itemsError?_eq : ∀ {items : List Tree},
    EveryItem (Node Scalar.Encodable NamesEncodable) items →
      itemsError? items = doubleError? (itemDoubles items)
  | [], _ => rfl
  | _ :: _, h => by
    rw [itemsError?, itemDoubles, doubleError?_append, numberError?_eq h.1, itemsError?_eq h.2]

theorem fieldsError?_eq : ∀ {fields : List (Text × Tree)},
    EveryField (Node Scalar.Encodable NamesEncodable) fields →
      fieldsError? fields = doubleError? (fieldDoubles fields)
  | [], _ => rfl
  | (_, _) :: _, h => by
    rw [fieldsError?, fieldDoubles, doubleError?_append, numberError?_eq h.1, fieldsError?_eq h.2]

end

/-- Whether a value is no number that the writer refuses. -/
def NumberFits (value : Scalar) : Prop := scalarError? value = none

/-- Whether the writer refuses no number of a tree. -/
def NumbersFit (t : Tree) : Prop := t.Every (Node NumberFits fun _ => True)

mutual

theorem numberError?_eq_none_iff : ∀ t : Tree, numberError? t = none ↔ NumbersFit t
  | .leaf _ => Iff.rfl
  | .seq items => by
    rw [numberError?, itemsError?_eq_none_iff]
    exact (and_iff_right trivial).symm
  | .keyed fields => by
    rw [numberError?, fieldsError?_eq_none_iff]
    exact (and_iff_right trivial).symm

theorem itemsError?_eq_none_iff : ∀ items : List Tree,
    itemsError? items = none ↔ EveryItem (Node NumberFits fun _ => True) items
  | [] => iff_of_true rfl trivial
  | t :: rest => by
    rw [itemsError?, Option.or_eq_none_iff, numberError?_eq_none_iff, itemsError?_eq_none_iff]
    rfl

theorem fieldsError?_eq_none_iff : ∀ fields : List (Text × Tree),
    fieldsError? fields = none ↔ EveryField (Node NumberFits fun _ => True) fields
  | [] => iff_of_true rfl trivial
  | (_, t) :: rest => by
    rw [fieldsError?, Option.or_eq_none_iff, numberError?_eq_none_iff, fieldsError?_eq_none_iff]
    rfl

end

/-- Whether the lines of a tree can be indented: the indent is within bounds, or the tree is a
string, which stands on a line of its own. -/
def Indents (indent : Int) (t : Tree) : Prop := indentError? indent = none ∨ ∃ s, t = .leaf (.str s)

theorem error?_eq_of_indents {indent : Int} {t : Tree} (ht : t.Encodable) (h : Indents indent t) :
    error? indent t = t.nonFinite?.map .nonFinite := by
  rcases h with h | ⟨s, rfl⟩
  · have hnumber := numberError?_eq ht
    unfold error?
    split
    · rfl
    · rw [h, Option.none_or, hnumber]
      rfl
  · rfl

theorem error?_of_not_indents {indent : Int} {t : Tree} (h : ¬ Indents indent t) :
    error? indent t = indentError? indent ∧ (indentError? indent).isSome := by
  obtain ⟨hindent, hstring⟩ := not_or.mp h
  obtain ⟨e, he⟩ := Option.ne_none_iff_exists'.mp hindent
  refine ⟨?_, by rw [he]; rfl⟩
  unfold error?
  split
  · next s => exact absurd ⟨s, rfl⟩ hstring
  · rw [he, Option.some_or]

/-- The writer takes an encodable tree if its lines can be indented and its doubles are finite. -/
theorem error?_eq_none_iff {indent : Int} {t : Tree} (ht : t.Encodable) :
    error? indent t = none ↔ Indents indent t ∧ t.Finite := by
  by_cases hindents : Indents indent t
  · rw [error?_eq_of_indents ht hindents, Option.map_eq_none_iff, t.nonFinite?_eq_none_iff]
    exact (and_iff_right hindents).symm
  · obtain ⟨herror, hsome⟩ := error?_of_not_indents hindents
    rw [herror]
    refine iff_of_false ?_ fun h => hindents h.1
    intro hnone
    rw [hnone] at hsome
    cases hsome

end Json

end FluentFixtures
