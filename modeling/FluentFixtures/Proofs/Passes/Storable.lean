import FluentFixtures.Proofs.Json.Storable
import FluentFixtures.Proofs.Passes.Fields

/-!
# Passes keep trees storable

A property of leaves that parts of a string share with the string, and one of
names that fewer names share, stay with a tree through every pass; so what a
document can hold, it can hold after a pass.
-/

namespace FluentFixtures

namespace Tree

/-- Whether a property of leaves and names goes over to parts of strings, to fewer names and to the
fields of text elements. -/
structure Closed (leaf : Scalar → Prop) (names : List Text → Prop) : Prop where
  part : ∀ {s t : Text}, s <:+: t → leaf (.str t) → leaf (.str s)
  fewer : ∀ {fewer all : List Text}, fewer.Sublist all → names all → names fewer
  elementType : leaf (.str textElementType)
  elementNames : names [typeField, valueField]

/-- An item that gives way to lines has a text in a field, and they are its lines. -/
theorem content_of_itemLines? {keepBlank : Bool} {t : Tree} {lines : List Text}
    (h : itemLines? keepBlank t = .ok (some lines)) :
    ∃ fields content, t = .keyed fields ∧ (valueField, .leaf (.str content)) ∈ fields ∧
      lines = Text.lines content keepBlank := by
  unfold itemLines? at h
  split at h
  · next fields =>
    split at h
    · split at h
      · cases h
      · next content hcontent =>
        unfold contentLines? at h
        split at h
        · next text =>
          refine ⟨fields, text, rfl, mem_of_get? hcontent, ?_⟩
          split at h
          · exact (Option.some.inj (Except.ok.inj h)).symm
          · cases h
        · cases h
        · split at h <;> cases h
        · split at h <;> cases h
    · cases h
  · cases h

section Closed

variable {leaf : Scalar → Prop} {names : List Text → Prop} (h : Closed leaf names)

include h

theorem Closed.undash : Keeps undashEdit leaf names where
  field {name value _ value'} hvalue hfield := by
    change undashField name value = some value' at hfield
    unfold undashField at hfield
    split at hfield
    · next rest =>
      obtain rfl := Option.some.inj hfield
      split
      · exact h.part (List.suffix_cons _ _).isInfix hvalue
      · exact hvalue
    · obtain rfl := Option.some.inj hfield
      exact hvalue
  fewer := h.fewer
  line _ hitem := by cases hitem

theorem Closed.implied (rules : RuleTable) : Keeps (impliedEdit rules) leaf names where
  field {name value key value'} hvalue hfield := by
    change impliedField rules name value key = some value' at hfield
    unfold impliedField at hfield
    split at hfield
    · split at hfield
      · cases hfield
      · obtain rfl := Option.some.inj hfield
        exact hvalue
    · obtain rfl := Option.some.inj hfield
      exact hvalue
  fewer := h.fewer
  line _ hitem := by cases hitem

theorem Closed.split (keepBlank : Bool) : Keeps (splitEdit keepBlank) leaf names where
  field hvalue hfield := by
    obtain rfl := Option.some.inj hfield
    exact hvalue
  fewer := h.fewer
  line {t lines} ht hitem := by
    change itemLines? keepBlank t = .ok (some lines) at hitem
    obtain ⟨fields, content, rfl, hcontent, rfl⟩ := content_of_itemLines? hitem
    have hleaf : leaf (.str content) := everyField_iff.mp ht.2 _ hcontent
    intro line hline
    have hpart : leaf (.str line) := h.part (Text.infix_of_mem_lines hline) hleaf
    exact ⟨h.elementNames, h.elementType, hpart, trivial⟩

theorem Closed.normalize {rules : RuleTable} {keepBlank : Bool} {t u : Tree}
    (ht : t.Every (Node leaf names)) (hnormal : t.normalize rules keepBlank = .ok u) :
    u.Every (Node leaf names) := by
  have hundash : t.undashNames.Every (Node leaf names) := by
    rw [undashNames_eq_rewrite]
    exact ht.edit h.undash (edit_undashEdit t)
  have himplied : (t.undashNames.dropImpliedTypes rules).Every (Node leaf names) := by
    rw [dropImpliedTypes_eq_rewrite]
    exact hundash.edit (h.implied rules) (edit_impliedEdit rules _)
  exact himplied.edit (h.split keepBlank) hnormal

end Closed

theorem closed_encodable : Closed Scalar.Encodable NamesEncodable where
  part hpart hjoined := Text.Joined.infix hjoined hpart
  fewer hsub hnames := ⟨hnames.1.sublist hsub, fun name hname => hnames.2 name (hsub.subset hname)⟩
  elementType := by decide
  elementNames := by decide

theorem closed_finite : Closed Scalar.Finite fun _ => True where
  part _ _ := trivial
  fewer _ _ := trivial
  elementType := trivial
  elementNames := trivial

theorem Storable.edit {ε : Type} {r : Edit ε}
    (hr : ∀ {leaf names}, Closed leaf names → Keeps r leaf names) {t u : Tree} (ht : t.Storable)
    (h : t.edit r = .ok u) : u.Storable :=
  ⟨ht.encodable.edit (hr closed_encodable) h, ht.finite.edit (hr closed_finite) h⟩

theorem Storable.undashNames {t : Tree} (h : t.Storable) : t.undashNames.Storable := by
  rw [undashNames_eq_rewrite]
  exact h.edit Closed.undash (edit_undashEdit t)

theorem Storable.dropImpliedTypes {t : Tree} (h : t.Storable) (rules : RuleTable) :
    (t.dropImpliedTypes rules).Storable := by
  rw [dropImpliedTypes_eq_rewrite]
  exact h.edit (fun hclosed => hclosed.implied rules) (edit_impliedEdit rules t)

theorem Storable.splitLines {t u : Tree} (h : t.Storable) {keepBlank : Bool}
    (hsplit : t.splitLines keepBlank = .ok u) : u.Storable :=
  h.edit (fun hclosed => hclosed.split keepBlank) hsplit

theorem Encodable.normalize {t u : Tree} (h : t.Encodable) {rules : RuleTable} {keepBlank : Bool}
    (hnormal : t.normalize rules keepBlank = .ok u) : u.Encodable :=
  closed_encodable.normalize h hnormal

end Tree

end FluentFixtures
