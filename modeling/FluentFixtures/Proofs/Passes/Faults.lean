import FluentFixtures.Proofs.Faults
import FluentFixtures.Proofs.Passes.Elements
import FluentFixtures.Proofs.Passes.Implied

/-!
# When splitting fails, and how

A text element in a sequence is a bad item if it has no content or if its content
is no text: `BadItem`. `Tree.checked` lists the items in the order in which the
walk looks at them: those of a sequence from the first to the last, then what is
in its containers from the last to the first, and nothing in an item that gives
way to lines. Main statement: `splitLines_faults`. Splitting fails if there is a
bad item in this list, with the fault of the first one, and the list holds the
items of all sequences that are in no item that gives way to lines.
-/

namespace FluentFixtures

namespace Tree

/-- A text element that cannot be split, and why: its content is missing, is a value in which no
text can be looked for, or is a container with a line feed for an item or a name. -/
inductive BadItem : Tree → SplitError → Prop
  | missing {fields : Fields} : (keyed fields).isTextElement →
      Fields.get? fields valueField = none → BadItem (.keyed fields) .missingContent
  | value {fields : Fields} {value : Scalar} : (keyed fields).isTextElement →
      Fields.get? fields valueField = some (.leaf value) → (∀ text, value ≠ .str text) →
      BadItem (.keyed fields) (.noContainer value.kind)
  | list {fields : Fields} {items : List Tree} : (keyed fields).isTextElement →
      Fields.get? fields valueField = some (.seq items) → .leaf (.str lineFeedText) ∈ items →
      BadItem (.keyed fields) (.noText .list)
  | mapping {fields inner : Fields} : (keyed fields).isTextElement →
      Fields.get? fields valueField = some (.keyed inner) → lineFeedText ∈ inner.map Prod.fst →
      BadItem (.keyed fields) (.noText .mapping)

/-- Whether a tree is a text element of several lines. -/
def isMultiLine : Tree → Bool
  | .keyed fields =>
    (keyed fields).isTextElement &&
      match Fields.get? fields valueField with
      | some (.leaf (.str content)) => content.contains Newline.lineFeed
      | _ => false
  | _ => false

mutual

/-- The items of sequences in the order of the walk, which does not go into an item that gives way
to lines. -/
def checked : Tree → List Tree
  | .leaf _ => []
  | .seq items => items ++ checkedInItems items
  | .keyed fields => checkedInFields fields

def checkedInItems : List Tree → List Tree
  | [] => []
  | t :: rest => checkedInItems rest ++ if t.isMultiLine then [] else checked t

def checkedInFields : List (Text × Tree) → List Tree
  | [] => []
  | (_, t) :: rest => checkedInFields rest ++ checked t

end

/-- Whether the fault is that of the first bad item of a list. -/
def FirstFault (items : List Tree) (e : SplitError) : Prop :=
  ∃ before bad after, items = before ++ bad :: after ∧ BadItem bad e ∧
    ∀ item ∈ before, ∀ other, ¬ BadItem item other

/-- Whether no item on the way to an address gives way to lines. -/
def Unreplaced (t : Tree) (p : Address) : Prop :=
  ∀ q index item content, q ++ [.item index] <+: p → t.at? (q ++ [.item index]) = some item →
    ¬ item.MultiLine content

/-! ## Bad items -/

theorem isString_iff {text : Text} {t : Tree} : t.isString text = true ↔ t = .leaf (.str text) := by
  cases t with
  | leaf value => cases value <;> simp [isString]
  | seq items => simp [isString]
  | keyed fields => simp [isString]

section Contents

variable {keepBlank : Bool} {e : SplitError}

theorem contentLines?_leaf_eq_error_iff {value : Scalar} :
    contentLines? keepBlank (.leaf value) = .error e ↔
      (∀ text, value ≠ .str text) ∧ e = .noContainer value.kind := by
  cases value <;> simp [contentLines?, eq_comm]

theorem contentLines?_seq_eq_error_iff {items : List Tree} :
    contentLines? keepBlank (.seq items) = .error e ↔
      .leaf (.str lineFeedText) ∈ items ∧ e = .noText .list := by
  have hfeed : items.any (isString lineFeedText) ↔ .leaf (.str lineFeedText) ∈ items := by
    simp [List.any_eq_true, isString_iff]
  rw [contentLines?, ← hfeed]
  split
  · next hany =>
    rw [Except.error.injEq, and_iff_right hany]
    exact eq_comm
  · next hany => simp [hany]

theorem contentLines?_keyed_eq_error_iff {fields : Fields} :
    contentLines? keepBlank (.keyed fields) = .error e ↔
      lineFeedText ∈ fields.map Prod.fst ∧ e = .noText .mapping := by
  have hfeed : fields.any (fun field => field.1 = lineFeedText) ↔
      lineFeedText ∈ fields.map Prod.fst := by
    simp only [List.any_eq_true, decide_eq_true_eq, List.mem_map]
  rw [contentLines?, ← hfeed]
  split
  · next hany =>
    rw [Except.error.injEq, and_iff_right hany]
    exact eq_comm
  · next hany => simp [hany]

end Contents

theorem itemLines?_eq_error_iff {keepBlank : Bool} {t : Tree} {e : SplitError} :
    itemLines? keepBlank t = .error e ↔ BadItem t e := by
  constructor
  · intro h
    cases t with
    | leaf value => cases h
    | seq items => cases h
    | keyed fields =>
      by_cases htext : (keyed fields).isTextElement
      · rw [itemLines?_of_element htext] at h
        cases hget : Fields.get? fields valueField with
        | none => rw [hget] at h; cases h; exact .missing htext hget
        | some content =>
          rw [hget] at h
          cases content with
          | leaf value =>
            obtain ⟨hvalue, rfl⟩ := contentLines?_leaf_eq_error_iff.mp h
            exact .value htext hget hvalue
          | seq items =>
            obtain ⟨hfeed, rfl⟩ := contentLines?_seq_eq_error_iff.mp h
            exact .list htext hget hfeed
          | keyed inner =>
            obtain ⟨hfeed, rfl⟩ := contentLines?_keyed_eq_error_iff.mp h
            exact .mapping htext hget hfeed
      · rw [itemLines?, if_neg htext] at h
        cases h
  · intro h
    cases h with
    | missing htext hget => rw [itemLines?_of_element htext, hget]
    | value htext hget hvalue =>
      rw [itemLines?_of_element htext, hget]
      exact contentLines?_leaf_eq_error_iff.mpr ⟨hvalue, rfl⟩
    | list htext hget hfeed =>
      rw [itemLines?_of_element htext, hget]
      exact contentLines?_seq_eq_error_iff.mpr ⟨hfeed, rfl⟩
    | mapping htext hget hfeed =>
      rw [itemLines?_of_element htext, hget]
      exact contentLines?_keyed_eq_error_iff.mpr ⟨hfeed, rfl⟩

theorem BadItem.isTextElement {t : Tree} {e : SplitError} (h : BadItem t e) : t.isTextElement := by
  cases h <;> assumption

theorem isMultiLine_iff {t : Tree} : t.isMultiLine = true ↔ ∃ content, t.MultiLine content := by
  constructor
  · intro h
    cases t with
    | leaf value => cases h
    | seq items => cases h
    | keyed fields =>
      rw [isMultiLine, Bool.and_eq_true] at h
      obtain ⟨htext, hfeed⟩ := h
      split at hfeed
      · next content hget => exact ⟨content, htext, ⟨fields, rfl, hget⟩, by simpa using hfeed⟩
      · cases hfeed
  · rintro ⟨content, htext, ⟨fields, rfl, hget⟩, hfeed⟩
    rw [isMultiLine, htext, hget]
    simpa using hfeed

theorem splitFault?_eq_findSome? (keepBlank : Bool) (items : List Tree) :
    splitFault? keepBlank items = items.findSome? fun t => fault? (itemLines? keepBlank t) := by
  induction items with
  | nil => rfl
  | cons t rest ih =>
    rw [List.findSome?_cons, ← ih]
    simp only [splitFault?, Edit.itemFault?, splitEdit]
    cases itemLines? keepBlank t <;> rfl

theorem splitFault?_cons_eq_none_iff {keepBlank : Bool} {t : Tree} {rest : List Tree} :
    splitFault? keepBlank (t :: rest) = none ↔
      fault? (itemLines? keepBlank t) = none ∧ splitFault? keepBlank rest = none := by
  simp [splitFault?_eq_findSome?, List.findSome?_eq_none_iff]

theorem splitFault?_append (keepBlank : Bool) (items more : List Tree) :
    splitFault? keepBlank (items ++ more) =
      (splitFault? keepBlank items).or (splitFault? keepBlank more) := by
  simp only [splitFault?_eq_findSome?, List.findSome?_append]

theorem splitFault?_eq_some_iff {keepBlank : Bool} {items : List Tree} {e : SplitError} :
    splitFault? keepBlank items = some e ↔ FirstFault items e := by
  simp only [splitFault?_eq_findSome?, List.findSome?_eq_some_iff, fault?_eq_some_iff,
    fault?_eq_none_iff, ne_eq, itemLines?_eq_error_iff, FirstFault]

/-! ## The walk meets the first bad item -/

theorem fault?_putFirst {ε : Type} (rest : Except ε (List Tree)) (t : Except ε Tree) :
    fault? (Edit.putFirst rest t) = (fault? rest).or (fault? t) := by
  cases rest with
  | error e => rfl
  | ok rest => cases t <;> rfl

mutual

theorem fault?_split (keepBlank : Bool) :
    ∀ t : Tree, fault? (t.split keepBlank) = splitFault? keepBlank t.checked
  | .leaf _ => rfl
  | .seq items => by
    rw [split, checked, splitFault?_append]
    cases hfault : splitFault? keepBlank items with
    | some e => rfl
    | none => rw [fault?_map, fault?_splitItems keepBlank hfault]; rfl
  | .keyed fields => by rw [split, checked, fault?_map, fault?_splitFields]

theorem fault?_splitItems (keepBlank : Bool) :
    ∀ {items : List Tree}, splitFault? keepBlank items = none →
      fault? (splitItems keepBlank items) = splitFault? keepBlank (checkedInItems items)
  | [], _ => rfl
  | t :: rest, h => by
    obtain ⟨ht, hrest⟩ := splitFault?_cons_eq_none_iff.mp h
    have hmore := fault?_splitItems keepBlank hrest
    rw [splitItems, checkedInItems]
    cases hitem : itemLines? keepBlank t with
    | error e => rw [hitem] at ht; cases ht
    | ok lines? =>
      cases lines? with
      | some lines =>
        obtain ⟨content, hmulti, -⟩ := itemLines?_eq_some_iff.mp hitem
        rw [if_pos (isMultiLine_iff.mpr ⟨content, hmulti⟩), List.append_nil, fault?_map, hmore]
      | none =>
        have hone : ¬ t.isMultiLine = true := by
          rw [isMultiLine_iff, not_exists]
          exact not_multiLine_of_kept hitem
        rw [if_neg hone, splitFault?_append, fault?_putFirst, hmore, fault?_split keepBlank t]

theorem fault?_splitFields (keepBlank : Bool) :
    ∀ fields : List (Text × Tree),
      fault? (splitFields keepBlank fields) = splitFault? keepBlank (checkedInFields fields)
  | [] => rfl
  | (name, t) :: rest => by
    rw [splitFields, checkedInFields, splitFault?_append, ← fault?_splitFields keepBlank rest,
      ← fault?_split keepBlank t]
    cases splitFields keepBlank rest with
    | error e => rfl
    | ok rest => rw [fault?_map]; rfl

end

/-! ## The items that are looked at -/

theorem unreplaced_nil (t : Tree) : t.Unreplaced [] := by
  rintro q index item content hway
  simp at hway

/-- No item on the way through a step gives way to lines if that step goes to none and none is on
the rest of the way. -/
theorem unreplaced_cons_iff {t child : Tree} {step : Step} {p : Address}
    (hchild : t.child? step = some child) :
    t.Unreplaced (step :: p) ↔
      (∀ index content, step = .item index → ¬ child.MultiLine content) ∧ child.Unreplaced p := by
  constructor
  · intro h
    constructor
    · rintro index content rfl
      refine h [] index child content ⟨p, rfl⟩ ?_
      rw [List.nil_append, at?_singleton, hchild]
    · intro q index item content hway hat
      refine h (step :: q) index item content (List.cons_prefix_cons.mpr ⟨rfl, hway⟩) ?_
      rw [List.cons_append, at?, hchild]
      exact hat
  · rintro ⟨hhere, hbelow⟩ q index item content hway hat
    cases q with
    | nil =>
      obtain ⟨rfl, -⟩ := List.cons_prefix_cons.mp hway
      rw [List.nil_append, at?_singleton, hchild] at hat
      obtain rfl := Option.some.inj hat
      exact hhere index content rfl
    | cons first q =>
      obtain ⟨rfl, hrest⟩ := List.cons_prefix_cons.mp hway
      rw [List.cons_append, at?, hchild] at hat
      exact hbelow q index item content hrest hat

/-- Whether an item of a sequence in the tree is looked at. -/
def IsLookedAt (t item : Tree) : Prop :=
  ∃ p index, t.at? (p ++ [.item index]) = some item ∧ t.Unreplaced p

theorem isLookedAt_iff {t item : Tree} :
    t.IsLookedAt item ↔ (∃ index, t.child? (.item index) = some item) ∨
      ∃ step child, t.child? step = some child ∧
        (∀ index content, step = .item index → ¬ child.MultiLine content) ∧
        child.IsLookedAt item := by
  constructor
  · rintro ⟨p, index, hat, hfree⟩
    cases p with
    | nil =>
      rw [List.nil_append, at?_singleton] at hat
      exact .inl ⟨index, hat⟩
    | cons step p =>
      rw [List.cons_append, at?] at hat
      obtain ⟨child, hchild, hat⟩ := Option.bind_eq_some_iff.mp hat
      obtain ⟨hhere, hbelow⟩ := (unreplaced_cons_iff hchild).mp hfree
      exact .inr ⟨step, child, hchild, hhere, p, index, hat, hbelow⟩
  · rintro (⟨index, hat⟩ | ⟨step, child, hchild, hhere, p, index, hat, hbelow⟩)
    · exact ⟨[], index, by rw [List.nil_append, at?_singleton, hat], unreplaced_nil t⟩
    · refine ⟨step :: p, index, ?_, (unreplaced_cons_iff hchild).mpr ⟨hhere, hbelow⟩⟩
      rw [List.cons_append, at?, hchild]
      exact hat

theorem mem_checkedInItems_iff {items : List Tree} {item : Tree} :
    item ∈ checkedInItems items ↔
      ∃ child ∈ items, child.isMultiLine = false ∧ item ∈ child.checked := by
  induction items with
  | nil => simp [checkedInItems]
  | cons t rest ih =>
    rw [checkedInItems, List.mem_append, ih]
    cases hmulti : t.isMultiLine <;> simp [hmulti, or_comm]

theorem mem_checkedInFields_iff {fields : Fields} {item : Tree} :
    item ∈ checkedInFields fields ↔ ∃ field ∈ fields, item ∈ field.2.checked := by
  induction fields with
  | nil => simp [checkedInFields]
  | cons field rest ih =>
    rw [checkedInFields, List.mem_append, ih]
    simp [or_comm]

mutual

/-- The walk looks at the items of all sequences that are in no item that gives way to lines. -/
theorem mem_checked_iff : ∀ {t : Tree}, t.NamesDistinct → ∀ item,
    item ∈ t.checked ↔ t.IsLookedAt item
  | .leaf value, _, item => by
    rw [isLookedAt_iff]
    simp [checked, child?]
  | .seq items, h, item => by
    have hchildren := forall_item_mem_checked_iff h.2
    rw [isLookedAt_iff, checked, List.mem_append, mem_checkedInItems_iff, List.mem_iff_getElem?]
    refine or_congr Iff.rfl ⟨?_, ?_⟩
    · rintro ⟨child, hmem, hone, hitem⟩
      obtain ⟨index, hindex⟩ := List.mem_iff_getElem?.mp hmem
      refine ⟨.item index, child, hindex, ?_, (hchildren child hmem item).mp hitem⟩
      intro _ content _ hmulti
      rw [isMultiLine_iff.mpr ⟨content, hmulti⟩] at hone
      cases hone
    · rintro ⟨step, child, hchild, hhere, hitem⟩
      cases step with
      | field name => cases hchild
      | item index =>
        have hmem : child ∈ items := List.mem_iff_getElem?.mpr ⟨index, hchild⟩
        refine ⟨child, hmem, ?_, (hchildren child hmem item).mpr hitem⟩
        rw [Bool.eq_false_iff, ne_eq, isMultiLine_iff, not_exists]
        exact fun content => hhere index content rfl
  | .keyed fields, h, item => by
    have hchildren := forall_field_mem_checked_iff h.2
    rw [isLookedAt_iff, checked, mem_checkedInFields_iff]
    constructor
    · rintro ⟨⟨name, child⟩, hmem, hitem⟩
      refine .inr ⟨.field name, child, (get?_eq_some_iff h.1).mpr hmem, ?_, ?_⟩
      · rintro _ _ hstep
        cases hstep
      · exact (hchildren (name, child) hmem item).mp hitem
    · rintro (⟨index, hat⟩ | ⟨step, child, hchild, -, hitem⟩)
      · cases hat
      · cases step with
        | item index => cases hchild
        | field name =>
          have hmem := mem_of_get? hchild
          exact ⟨(name, child), hmem, (hchildren (name, child) hmem item).mpr hitem⟩

theorem forall_item_mem_checked_iff :
    ∀ {items : List Tree}, EveryItem (Node (fun _ => True) List.Nodup) items →
      ∀ child ∈ items, ∀ item, item ∈ child.checked ↔ child.IsLookedAt item
  | [], _, _, hmem, _ => nomatch hmem
  | t :: rest, h, child, hmem, item => by
    rcases List.mem_cons.mp hmem with hfirst | hmem
    · rw [hfirst]
      exact mem_checked_iff h.1 item
    · exact forall_item_mem_checked_iff h.2 child hmem item

theorem forall_field_mem_checked_iff :
    ∀ {fields : List (Text × Tree)}, EveryField (Node (fun _ => True) List.Nodup) fields →
      ∀ field ∈ fields, ∀ item, item ∈ field.2.checked ↔ field.2.IsLookedAt item
  | [], _, _, hmem, _ => nomatch hmem
  | (name, t) :: rest, h, field, hmem, item => by
    rcases List.mem_cons.mp hmem with hfirst | hmem
    · rw [hfirst]
      exact mem_checked_iff h.1 item
    · exact forall_field_mem_checked_iff h.2 field hmem item

end

/-! ## Normalizing -/

theorem exists_firstFault_iff {items : List Tree} :
    (∃ e, FirstFault items e) ↔ ∃ item ∈ items, ∃ e, BadItem item e := by
  constructor
  · rintro ⟨e, before, bad, after, rfl, hbad, -⟩
    exact ⟨bad, List.mem_append_right _ List.mem_cons_self, e, hbad⟩
  · rintro ⟨item, hmem, e, hbad⟩
    -- The fault of items does not depend on the flag, so either one may be taken.
    cases hfault : splitFault? true items with
    | some cause => exact ⟨cause, splitFault?_eq_some_iff.mp hfault⟩
    | none =>
      rw [splitFault?_eq_findSome?, List.findSome?_eq_none_iff] at hfault
      exact absurd (itemLines?_eq_error_iff.mpr hbad) (fault?_eq_none_iff.mp (hfault item hmem) e)

theorem splitLines_eq_error_iff {keepBlank : Bool} {t : Tree} {e : SplitError} :
    t.splitLines keepBlank = .error e ↔ FirstFault t.checked e := by
  rw [splitLines_eq_split, ← fault?_eq_some_iff, fault?_split, splitFault?_eq_some_iff]

theorem namesDistinct_undashNames {t : Tree} (hnames : t.NamesDistinct) :
    t.undashNames.NamesDistinct := by
  rw [undashNames_eq_rewrite]
  exact namesDistinct_edit hnames (edit_undashEdit t)

theorem at?_rewrite_item {f : LeafEdit} {t : Tree} (h : t.NamesDistinct) (p : Address)
    (index : Nat) :
    (t.rewrite f .root).at? (p ++ [.item index]) =
      (t.at? (p ++ [.item index])).map (rewrite f (.index index)) := by
  rw [at?_rewrite_concat (.inl h)]
  cases t.at? (p ++ [.item index]) with
  | none => rfl
  | some u => cases u <;> rfl

/-- A bad item that is left when names and types were edited was bad before, and its type is not
implied. -/
theorem badItem_of_edited {rules : RuleTable} {index : Nat} {t : Tree} (hnames : t.NamesDistinct)
    {e : SplitError}
    (h : BadItem ((t.rewrite undashLeaf (.index index)).rewrite (impliedField rules) (.index index)) e) :
    BadItem t e ∧ ¬ rules.Implies textElementType (.index index) := by
  have hundashed : (t.rewrite undashLeaf (.index index)).NamesDistinct := by
    have hedit := rebuild_eq_rewrite (r := undashEdit) (fun _ => rfl) (.index index) t
    exact Every.rebuild (keeps_namesDistinct undashEdit) hnames hedit
  have htype (value : Scalar) : undashLeaf typeField value (.index index) = some value :=
    undashField_of_ne typeField_ne_nameField value
  have hkept : rules.implies textElementType (ParentKey.index index).scalar = false :=
    implies_of_isTextElement h.isTextElement
  -- The fault of an item does not depend on the flag, so either one may be taken.
  have hdrop := itemLines?_rewrite (sparesContent_impliedField rules)
    (isTextElement_dropped hkept hundashed) true
  have hundash := itemLines?_rewrite sparesContent_undashLeaf (isTextElement_rewrite htype t) true
  constructor
  · have herror := (@itemLines?_eq_error_iff true _ _).mpr h
    rw [hdrop, hundash] at herror
    exact itemLines?_eq_error_iff.mp herror
  · rw [← RuleTable.implies_iff, hkept]
    exact Bool.false_ne_true

theorem exists_badItem_of_normalize {rules : RuleTable} {keepBlank : Bool} {t : Tree}
    (hnames : t.NamesDistinct) {e : SplitError} (h : t.normalize rules keepBlank = .error e) :
    ∃ (p : Address) (index : Nat) (item : Tree), t.at? (p ++ [.item index]) = some item ∧
      BadItem item e ∧ ¬ rules.Implies textElementType (.index index) := by
  have hundashed := namesDistinct_undashNames hnames
  have hdropped := namesDistinct_dropImplied rules hundashed
  obtain ⟨before, bad, after, hchecked, hbad, -⟩ := splitLines_eq_error_iff.mp h
  have hmem : bad ∈ (t.undashNames.dropImpliedTypes rules).checked := by
    rw [hchecked]
    exact List.mem_append_right _ List.mem_cons_self
  obtain ⟨p, index, hat, -⟩ := (mem_checked_iff hdropped bad).mp hmem
  rw [dropImpliedTypes_eq_rewrite, at?_rewrite_item hundashed, undashNames_eq_rewrite,
    at?_rewrite_item hnames, Option.map_map] at hat
  obtain ⟨item, hitem, rfl⟩ := Option.map_eq_some_iff.mp hat
  obtain ⟨hbad, hkept⟩ := badItem_of_edited (hnames.at? hitem) hbad
  exact ⟨p, index, item, hitem, hbad, hkept⟩

/-- Splitting fails if some text element in a sequence is bad and no item around it gives way to
lines, with the fault of the first bad one in the order of the walk. Normalizing fails as splitting
does once dashes and implied types are gone, so never for a text element whose type is implied. -/
theorem splitLines_faults (keepBlank : Bool) {t : Tree} (hnames : t.NamesDistinct) :
    ((∃ e, t.splitLines keepBlank = .error e) ↔ ∃ p index item e,
        t.at? (p ++ [.item index]) = some item ∧ t.Unreplaced p ∧ BadItem item e) ∧
      (∀ e, t.splitLines keepBlank = .error e ↔ FirstFault t.checked e) ∧
      (∀ item, item ∈ t.checked ↔ t.IsLookedAt item) ∧
      ∀ rules e,
        (t.normalize rules keepBlank = .error e ↔
          FirstFault (t.undashNames.dropImpliedTypes rules).checked e) ∧
        (t.normalize rules keepBlank = .error e → ∃ p index item,
          t.at? (p ++ [.item index]) = some item ∧ BadItem item e ∧
            ¬ rules.Implies textElementType (.index index)) := by
  refine ⟨?_, fun e => splitLines_eq_error_iff, mem_checked_iff hnames, fun rules e => ?_⟩
  · simp only [splitLines_eq_error_iff, exists_firstFault_iff, mem_checked_iff hnames]
    constructor
    · rintro ⟨item, ⟨p, index, hat, hfree⟩, e, hbad⟩
      exact ⟨p, index, item, e, hat, hfree, hbad⟩
    · rintro ⟨p, index, item, e, hat, hfree, hbad⟩
      exact ⟨item, ⟨p, index, hat, hfree⟩, e, hbad⟩
  · exact ⟨splitLines_eq_error_iff, exists_badItem_of_normalize hnames⟩

/-- A text element without a content, and after it one that holds a number, each in a sequence. -/
def badTexts : Tree :=
  .seq [.seq [.keyed [(typeField, .leaf (.str textElementType))]],
    .seq [.keyed [(typeField, .leaf (.str textElementType)), (valueField, .leaf (.int 5))]]]

/-- The last of the two sequences is looked at first. -/
theorem splitLines_faults_badTexts :
    badTexts.NamesDistinct ∧ badTexts.splitLines false = .error (.noContainer .int) := by
  have hnames : badTexts.NamesDistinct := by decide
  have hseq (items : List Tree) (cause : SplitError) : ¬ BadItem (.seq items) cause := fun h => nomatch h
  obtain ⟨-, hfirst, -⟩ := splitLines_faults false hnames
  have hbad := @BadItem.value
    [(typeField, .leaf (.str textElementType)), (valueField, .leaf (.int 5))] (.int 5) rfl rfl nofun
  refine ⟨hnames, (hfirst _).mpr ⟨[_, _], _, [_], rfl, hbad, ?_⟩⟩
  intro item hmem
  simp only [List.mem_cons, List.not_mem_nil, or_false] at hmem
  rcases hmem with rfl | rfl
  · exact hseq _
  · exact hseq _

end Tree

end FluentFixtures
