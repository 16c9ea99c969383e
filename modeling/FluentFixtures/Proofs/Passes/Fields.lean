import FluentFixtures.Proofs.Passes.Split

/-!
# The passes over fields

Taking dashes off names and dropping implied types rewrite leaf fields. They touch
different fields, so they commute, and an implied type that is dropped stays
dropped. A rule table without index keys treats all items of a sequence alike.
-/

namespace FluentFixtures

namespace Tree

/-- Takes the leading dash off a name. -/
def undashLeaf : LeafEdit := fun name value _ => undashField name value

theorem edit_undashEdit (t : Tree) : t.edit undashEdit = .ok (t.rewrite undashLeaf .root) := by
  rw [edit_eq_rebuild, rebuild_eq_rewrite fun _ => rfl]
  rfl

theorem edit_impliedEdit (rules : RuleTable) (t : Tree) :
    t.edit (impliedEdit rules) = .ok (t.rewrite (impliedField rules) .root) := by
  rw [edit_eq_rebuild, rebuild_eq_rewrite fun _ => rfl]
  rfl

theorem undashNames_eq_rewrite (t : Tree) : t.undashNames = t.rewrite undashLeaf .root := by
  rw [undashNames, edit_undashEdit]
  rfl

theorem dropImpliedTypes_eq_rewrite (rules : RuleTable) (t : Tree) :
    t.dropImpliedTypes rules = t.rewrite (impliedField rules) .root := by
  rw [dropImpliedTypes, edit_impliedEdit]
  rfl

theorem undashField_of_ne {name : Text} (h : name ≠ nameField) (value : Scalar) :
    undashField name value = some value := by
  unfold undashField
  split
  · rw [if_neg h]
  · rfl

theorem impliedField_of_ne {name : Text} (h : name ≠ typeField) (rules : RuleTable)
    (value : Scalar) (key : ParentKey) : impliedField rules name value key = some value := by
  unfold impliedField
  split
  · rw [if_neg (by simp [h])]
  · rfl

theorem impliedField_type {rules : RuleTable} {value value' : Scalar} {key : ParentKey} :
    impliedField rules typeField value key = some value' ↔
      value = value' ∧ ∀ type, value = .str type → rules.implies type key.scalar = false := by
  cases value with
  | str type =>
    by_cases himplied : rules.implies type key.scalar <;> simp [impliedField, himplied]
  | null => simp [impliedField]
  | bool b => simp [impliedField]
  | int n => simp [impliedField]
  | double d => simp [impliedField]

theorem typeField_ne_nameField : typeField ≠ nameField := by decide

theorem undash_andThen_implied (rules : RuleTable) :
    LeafEdit.andThen undashLeaf (impliedField rules) =
      LeafEdit.andThen (impliedField rules) undashLeaf := by
  funext name value key
  by_cases hname : name = nameField
  · subst hname
    have hkept (v : Scalar) : impliedField rules nameField v key = some v :=
      impliedField_of_ne typeField_ne_nameField.symm rules v key
    simp [LeafEdit.andThen, undashLeaf, hkept]
  · have hkept (v : Scalar) : undashField name v = some v := undashField_of_ne hname v
    simp [LeafEdit.andThen, undashLeaf, hkept]

theorem implied_andThen_implied (rules : RuleTable) :
    LeafEdit.andThen (impliedField rules) (impliedField rules) = impliedField rules := by
  funext name value key
  simp only [LeafEdit.andThen]
  cases h : impliedField rules name value key with
  | none => rfl
  | some value' =>
    by_cases hname : name = typeField
    · subst hname
      obtain ⟨rfl, hkept⟩ := impliedField_type.mp h
      exact impliedField_type.mpr ⟨rfl, hkept⟩
    · rw [impliedField_of_ne hname] at h
      cases h
      exact impliedField_of_ne hname rules value key

end Tree

/-! ## Index keys -/

/-- Whether no key of the table equals the index of an item. -/
structure RuleTable.NoIndexKey (rules : RuleTable) : Prop where
  exempt : ∀ index : Nat, KeySet.member (.int index) rules.exempt = false
  positional : ∀ index : Nat, KeyMap.get? (.int index) rules.positional = none

theorem RuleTable.noIndexKey_default : RuleTable.default.NoIndexKey where
  exempt _ := rfl
  positional _ := rfl

/-- Without index keys an item loses the types that no position guards. -/
theorem RuleTable.NoIndexKey.implies {rules : RuleTable} (h : rules.NoIndexKey) (type : Text)
    (index : Nat) :
    rules.implies type (ParentKey.index index).scalar =
      KeySet.member (.str type) rules.unambiguous := by
  rw [RuleTable.implies, ParentKey.scalar, h.exempt, h.positional]
  simp [KeySet.member]

namespace Tree

theorem indexFree_undashLeaf : LeafEdit.IndexFree undashLeaf := fun _ _ _ _ => rfl

theorem indexFree_impliedField {rules : RuleTable} (h : rules.NoIndexKey) :
    LeafEdit.IndexFree (impliedField rules) := by
  intro name value i j
  cases value <;> simp only [impliedField, h.implies]

/-! ## What splitting sees -/

theorem sparesContent_undashLeaf : LeafEdit.SparesContent undashLeaf where
  content _ value := undashField_of_ne (by decide) value
  lineFeed _ value := by rw [undashLeaf, undashField_of_ne (by decide)]; rfl

theorem sparesContent_impliedField (rules : RuleTable) :
    LeafEdit.SparesContent (impliedField rules) where
  content key value := impliedField_of_ne (by decide) rules value key
  lineFeed key value := by rw [impliedField_of_ne (by decide)]; rfl

theorem isTextElement_keyed {fields : Fields} :
    (keyed fields).isTextElement ↔
      Fields.get? fields typeField = some (.leaf (.str textElementType)) := by
  rw [isTextElement, decide_eq_true_eq, type?]
  constructor
  · intro h
    split at h
    · next type htype => cases h; exact htype
    · cases h
  · intro h
    rw [h]

theorem isTextElement_rewrite {f : LeafEdit} {key : ParentKey}
    (hf : ∀ value, f typeField value key = some value) (t : Tree) :
    (t.rewrite f key).isTextElement = t.isTextElement := by
  cases t with
  | leaf value => rfl
  | seq items => rfl
  | keyed fields =>
    rw [rewrite, Bool.eq_iff_iff, isTextElement_keyed, isTextElement_keyed, get?_rewriteFields hf]
    cases Fields.get? fields typeField with
    | none => simp
    | some t => cases t <;> simp [rewrite]

theorem rewrite_textElement {f : LeafEdit} {key : ParentKey}
    (htype : f typeField (.str textElementType) key = some (.str textElementType))
    (hvalue : ∀ value, f valueField value key = some value) (line : Text) :
    (textElement line).rewrite f key = textElement line := by
  simp [textElement, rewrite, rewriteFields, LeafEdit.keep, htype, hvalue]

/-- Splitting never sees whether names have dashes. -/
theorem every_splitAlike_undash (t : Tree) : t.Every (Items (AllSplitAlike undashLeaf)) := by
  have htype (key : ParentKey) (value : Scalar) : undashLeaf typeField value key = some value :=
    undashField_of_ne typeField_ne_nameField value
  refine every_of_forall (fun t => ?_) t
  cases t with
  | leaf value => trivial
  | keyed fields => trivial
  | seq items =>
    intro t _
    refine ⟨itemLines?_rewrite sparesContent_undashLeaf (isTextElement_rewrite (htype _) t), ?_⟩
    exact fun _ => rewrite_textElement (htype _ _) (sparesContent_undashLeaf.content _)

theorem rewrite_textElement_implied {rules : RuleTable} {key : ParentKey}
    (h : rules.implies textElementType key.scalar = false) (line : Text) :
    (textElement line).rewrite (impliedField rules) key = textElement line := by
  refine rewrite_textElement ?_ ((sparesContent_impliedField rules).content key) line
  apply impliedField_type.mpr
  refine ⟨rfl, ?_⟩
  intro type htype
  cases htype
  exact h

/-- A node that keeps the type of text elements was reached under a key that does not imply it. -/
theorem implies_of_isTextElement {rules : RuleTable} {key : ParentKey} {t : Tree}
    (h : (t.rewrite (impliedField rules) key).isTextElement) :
    rules.implies textElementType key.scalar = false := by
  cases t with
  | leaf value => simp [rewrite, isTextElement, type?] at h
  | seq items => simp [rewrite, isTextElement, type?] at h
  | keyed fields =>
    obtain ⟨old, -, hold⟩ := mem_rewriteFields_leaf.mp (mem_of_get? (isTextElement_keyed.mp h))
    obtain ⟨rfl, hkept⟩ := impliedField_type.mp hold
    exact hkept _ rfl

/-- Once implied types are dropped, splitting does not see whether they are dropped again. -/
theorem every_splitAlike_dropped {rules : RuleTable} (hrules : rules.NoIndexKey) (key : ParentKey)
    (t : Tree) :
    (t.rewrite (impliedField rules) key).Every (Items (AllSplitAlike (impliedField rules))) := by
  refine every_rewrite (indexFree_impliedField hrules) (fun items t ht => ?_) key t
  obtain ⟨old, -, rfl⟩ := List.mem_map.mp ht
  refine ⟨fun keepBlank => ?_, fun htext => ?_⟩
  · rw [rewrite_rewrite, implied_andThen_implied]
  · exact rewrite_textElement_implied (implies_of_isTextElement htext)

/-- With distinct names, a node keeps its type or the type goes, so dropping a type that is not
the one of text elements makes no text element and takes none away. -/
theorem isTextElement_dropped {rules : RuleTable} {key : ParentKey}
    (h : rules.implies textElementType key.scalar = false) {t : Tree} (hnames : t.NamesDistinct) :
    (t.rewrite (impliedField rules) key).isTextElement = t.isTextElement := by
  cases t with
  | leaf value => rfl
  | seq items => rfl
  | keyed fields =>
    have hdistinct : (fields.map Prod.fst).Nodup := hnames.1
    have hdistinct' : ((rewriteFields (impliedField rules) key fields).map Prod.fst).Nodup :=
      hdistinct.sublist (rewriteFields_sublist _ _ _)
    rw [rewrite, Bool.eq_iff_iff, isTextElement_keyed, isTextElement_keyed,
      get?_eq_some_iff hdistinct, get?_eq_some_iff hdistinct', mem_rewriteFields_leaf]
    constructor
    · rintro ⟨old, hmem, hold⟩
      obtain ⟨rfl, -⟩ := impliedField_type.mp hold
      exact hmem
    · intro hmem
      refine ⟨_, hmem, impliedField_type.mpr ⟨rfl, fun type htype => ?_⟩⟩
      cases htype
      exact h

/-- If no item can lose the type of text elements, splitting does not see which types go. -/
theorem every_splitAlike_implied {rules : RuleTable} (hrules : rules.NoIndexKey)
    (htext : KeySet.member (.str textElementType) rules.unambiguous = false) {t : Tree}
    (hnames : t.NamesDistinct) : t.Every (Items (AllSplitAlike (impliedField rules))) := by
  have hkept : rules.implies textElementType (ParentKey.index 0).scalar = false := by
    rw [hrules.implies, htext]
  apply hnames.imp
  intro t ht
  cases t with
  | leaf value => trivial
  | keyed fields => trivial
  | seq items =>
    intro item hitem
    have hdistinct : item.NamesDistinct := everyItem_iff.mp ht.2 item hitem
    refine ⟨itemLines?_rewrite (sparesContent_impliedField rules) ?_, fun _ => ?_⟩
    · exact isTextElement_dropped hkept hdistinct
    · exact rewrite_textElement_implied hkept

end Tree

end FluentFixtures
