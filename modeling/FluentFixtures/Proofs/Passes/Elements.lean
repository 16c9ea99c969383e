import FluentFixtures.Proofs.Passes.Split
import FluentFixtures.Proofs.Text.BlankLines

/-!
# What splitting lines makes of a tree

`SplitTo` says of two trees that the second has an element for each line where
the first has a text element with several in a sequence, and is the same
elsewhere. Main statement: `splitLines_elements`. What splitting returns is such
a tree, and all text elements in its sequences hold one line.
-/

namespace FluentFixtures

namespace Tree

/-- Whether a tree is a text element whose content is a text with a line feed. -/
structure MultiLine (t : Tree) (content : Text) : Prop where
  element : t.isTextElement
  holds : ∃ fields, t = .keyed fields ∧
    Fields.get? fields valueField = some (.leaf (.str content))
  feed : Newline.lineFeed ∈ content

mutual

/-- Whether the second tree is the first with elements for the lines of text elements. -/
inductive SplitTo (keepBlank : Bool) : Tree → Tree → Prop
  | leaf (value : Scalar) : SplitTo keepBlank (.leaf value) (.leaf value)
  | seq {items items' : List Tree} :
      SplitItemsTo keepBlank items items' → SplitTo keepBlank (.seq items) (.seq items')
  | keyed {fields fields' : List (Text × Tree)} :
      SplitFieldsTo keepBlank fields fields' → SplitTo keepBlank (.keyed fields) (.keyed fields')

/-- A text element of several lines gives way to a run of elements that have a type, a line for
their content and nothing else; another item stays one item in its place. -/
inductive SplitItemsTo (keepBlank : Bool) : List Tree → List Tree → Prop
  | nil : SplitItemsTo keepBlank [] []
  | run {t : Tree} {content : Text} {lines : List Text} {rest rest' : List Tree} :
      t.MultiLine content → Text.MakesUp keepBlank content lines →
      SplitItemsTo keepBlank rest rest' →
      SplitItemsTo keepBlank (t :: rest) (lines.map textElement ++ rest')
  | one {t t' : Tree} {rest rest' : List Tree} :
      (∀ content, ¬ t.MultiLine content) → SplitTo keepBlank t t' →
      SplitItemsTo keepBlank rest rest' → SplitItemsTo keepBlank (t :: rest) (t' :: rest')

/-- A field keeps its name and its place, and a text element in a field its text. -/
inductive SplitFieldsTo (keepBlank : Bool) : List (Text × Tree) → List (Text × Tree) → Prop
  | nil : SplitFieldsTo keepBlank [] []
  | cons {name : Text} {t t' : Tree} {rest rest' : List (Text × Tree)} :
      SplitTo keepBlank t t' → SplitFieldsTo keepBlank rest rest' →
      SplitFieldsTo keepBlank ((name, t) :: rest) ((name, t') :: rest')

end

/-- Whether the text elements among the items hold one line each. -/
def OneLineEach (keepBlank : Bool) (items : List Tree) : Prop :=
  ∀ fields content, .keyed fields ∈ items → (keyed fields).isTextElement →
    Fields.get? fields valueField = some (.leaf (.str content)) →
    Newline.lineFeed ∉ content.dropLast ∧ (keepBlank = false → content ≠ [Newline.lineFeed])

/-! ## What an item gives way to -/

theorem itemLines?_of_element {fields : Fields} (h : (keyed fields).isTextElement)
    (keepBlank : Bool) :
    itemLines? keepBlank (.keyed fields) =
      match Fields.get? fields valueField with
      | none => .error .missingContent
      | some content => contentLines? keepBlank content := by
  rw [itemLines?]
  exact if_pos h

theorem contentLines?_eq_some_iff {keepBlank : Bool} {t : Tree} {lines : List Text} :
    contentLines? keepBlank t = .ok (some lines) ↔
      ∃ content : Text, t = .leaf (.str content) ∧ Newline.lineFeed ∈ content ∧
        lines = content.lines keepBlank := by
  cases t with
  | leaf value =>
    cases value with
    | str content =>
      by_cases hfeed : content.contains Newline.lineFeed
      · have hmem : Newline.lineFeed ∈ content := List.contains_iff_mem.mp hfeed
        simp [contentLines?, hmem, eq_comm]
      · have hmem : Newline.lineFeed ∉ content := fun h => hfeed (List.contains_iff_mem.mpr h)
        simp [contentLines?, hmem]
    | null => simp [contentLines?]
    | bool b => simp [contentLines?]
    | int n => simp [contentLines?]
    | double d => simp [contentLines?]
  | seq items =>
    rw [contentLines?]
    split <;> simp
  | keyed fields =>
    rw [contentLines?]
    split <;> simp

theorem itemLines?_eq_some_iff {keepBlank : Bool} {t : Tree} {lines : List Text} :
    itemLines? keepBlank t = .ok (some lines) ↔
      ∃ content, t.MultiLine content ∧ lines = content.lines keepBlank := by
  constructor
  · intro h
    cases t with
    | leaf value => cases h
    | seq items => cases h
    | keyed fields =>
      by_cases htext : (keyed fields).isTextElement
      · rw [itemLines?_of_element htext] at h
        cases hget : Fields.get? fields valueField with
        | none => rw [hget] at h; cases h
        | some value =>
          rw [hget] at h
          obtain ⟨content, rfl, hfeed, rfl⟩ := contentLines?_eq_some_iff.mp h
          exact ⟨content, ⟨htext, ⟨fields, rfl, hget⟩, hfeed⟩, rfl⟩
      · rw [itemLines?, if_neg htext] at h
        cases h
  · rintro ⟨content, ⟨htext, ⟨fields, rfl, hget⟩, hfeed⟩, rfl⟩
    rw [itemLines?_of_element htext, hget]
    exact contentLines?_eq_some_iff.mpr ⟨content, rfl, hfeed, rfl⟩

theorem not_multiLine_of_kept {keepBlank : Bool} {t : Tree} (h : itemLines? keepBlank t = .ok none)
    (content : Text) : ¬ t.MultiLine content := by
  intro hmulti
  rw [itemLines?_eq_some_iff.mpr ⟨content, hmulti, rfl⟩] at h
  cases h

/-! ## The tree that splitting returns -/

mutual

theorem splitTo_of_split {keepBlank : Bool} :
    ∀ {t u : Tree}, t.split keepBlank = .ok u → SplitTo keepBlank t u
  | .leaf value, _, h => by cases h; exact .leaf value
  | .seq items, _, h => by
    obtain ⟨-, items', hitems, rfl⟩ := split_seq h
    exact .seq (splitItemsTo_of_splitItems hitems)
  | .keyed fields, _, h => by
    obtain ⟨fields', hfields, rfl⟩ := split_keyed h
    exact .keyed (splitFieldsTo_of_splitFields hfields)

theorem splitItemsTo_of_splitItems {keepBlank : Bool} :
    ∀ {ts us : List Tree}, splitItems keepBlank ts = .ok us → SplitItemsTo keepBlank ts us
  | [], _, h => by cases h; exact .nil
  | t :: rest, _, h => by
    obtain ⟨rest', hrest, ⟨lines, hitem, rfl⟩ | ⟨u, hitem, ht, rfl⟩⟩ := splitItems_cons h
    · obtain ⟨content, hmulti, rfl⟩ := itemLines?_eq_some_iff.mp hitem
      exact .run hmulti (Text.makesUp_lines keepBlank content) (splitItemsTo_of_splitItems hrest)
    · exact .one (not_multiLine_of_kept hitem) (splitTo_of_split ht)
        (splitItemsTo_of_splitItems hrest)

theorem splitFieldsTo_of_splitFields {keepBlank : Bool} :
    ∀ {fields fields' : List (Text × Tree)}, splitFields keepBlank fields = .ok fields' →
      SplitFieldsTo keepBlank fields fields'
  | [], _, h => by cases h; exact .nil
  | (name, t) :: rest, _, h => by
    obtain ⟨u, rest', hrest, ht, rfl⟩ := splitFields_cons h
    exact .cons (splitTo_of_split ht) (splitFieldsTo_of_splitFields hrest)

end

/-- A node that is no item of several lines keeps its names and its leaves. -/
theorem SplitFieldsTo.get?_leaf {keepBlank : Bool} {fields fields' : Fields}
    (h : SplitFieldsTo keepBlank fields fields') :
    fields'.map Prod.fst = fields.map Prod.fst ∧
      ∀ name value, Fields.get? fields name = some (.leaf value) →
        Fields.get? fields' name = some (.leaf value) := by
  induction fields generalizing fields' with
  | nil => cases h; exact ⟨rfl, fun _ _ hget => hget⟩
  | cons field rest ih =>
    cases h with
    | @cons name t t' _ rest' ht hrest =>
      obtain ⟨hnames, hleaves⟩ := ih hrest
      refine ⟨by rw [List.map_cons, List.map_cons, hnames], fun other value hget => ?_⟩
      rw [get?_cons] at hget ⊢
      by_cases hname : name = other
      · rw [if_pos hname] at hget ⊢
        obtain rfl := Option.some.inj hget
        cases ht
        rfl
      · rw [if_neg hname] at hget ⊢
        exact hleaves other value hget

/-! ## One line each -/

theorem OneLineEach.lines {keepBlank : Bool} {content : Text} {lines : List Text}
    (hlines : Text.MakesUp keepBlank content lines) {rest : List Tree}
    (hrest : OneLineEach keepBlank rest) :
    OneLineEach keepBlank (lines.map textElement ++ rest) := by
  intro fields text hmem htext hget
  rcases List.mem_append.mp hmem with hmem | hmem
  · obtain ⟨line, hline, helement⟩ := List.mem_map.mp hmem
    cases helement
    cases hget
    exact ⟨hlines.feedLast text hline, fun hkeep hblank => hlines.notBlank hkeep (hblank ▸ hline)⟩
  · exact hrest fields text hmem htext hget

theorem OneLineEach.kept {keepBlank : Bool} {t : Tree} (ht : ∀ content, ¬ t.MultiLine content)
    {rest : List Tree} (hrest : OneLineEach keepBlank rest) :
    OneLineEach keepBlank (t :: rest) := by
  intro fields text hmem htext hget
  rcases List.mem_cons.mp hmem with rfl | hmem
  · have hfeed : Newline.lineFeed ∉ text := fun hfeed => ht text ⟨htext, ⟨fields, rfl, hget⟩, hfeed⟩
    refine ⟨fun h => hfeed (List.dropLast_subset _ h), ?_⟩
    rintro - rfl
    exact hfeed List.mem_cons_self
  · exact hrest fields text hmem htext hget

theorem oneLineEach_of_splitItems {keepBlank : Bool} {ts us : List Tree}
    (h : splitItems keepBlank ts = .ok us) : OneLineEach keepBlank us := by
  induction ts generalizing us with
  | nil => cases h; exact fun _ _ hmem => nomatch hmem
  | cons t rest ih =>
    obtain ⟨rest', hrest, ⟨lines, hitem, rfl⟩ | ⟨u, hitem, ht, rfl⟩⟩ := splitItems_cons h
    · obtain ⟨content, -, rfl⟩ := itemLines?_eq_some_iff.mp hitem
      exact OneLineEach.lines (Text.makesUp_lines keepBlank content) (ih hrest)
    · -- Splitting an item that is kept does not make several lines of its content.
      rw [← itemLines?_split ht] at hitem
      exact OneLineEach.kept (not_multiLine_of_kept hitem) (ih hrest)

theorem everyItem_textElements {q : List Tree → Prop} (lines : List Text) {rest : List Tree}
    (hrest : EveryItem (Items q) rest) : EveryItem (Items q) (lines.map textElement ++ rest) := by
  induction lines with
  | nil => exact hrest
  | cons line more ih => exact ⟨⟨trivial, trivial, trivial, trivial⟩, ih⟩

mutual

theorem every_oneLineEach {keepBlank : Bool} :
    ∀ {t u : Tree}, t.split keepBlank = .ok u → u.Every (Items (OneLineEach keepBlank))
  | .leaf _, _, h => by cases h; trivial
  | .seq items, _, h => by
    obtain ⟨-, items', hitems, rfl⟩ := split_seq h
    exact ⟨oneLineEach_of_splitItems hitems, everyItem_oneLineEach hitems⟩
  | .keyed fields, _, h => by
    obtain ⟨fields', hfields, rfl⟩ := split_keyed h
    exact ⟨trivial, everyField_oneLineEach hfields⟩

theorem everyItem_oneLineEach {keepBlank : Bool} :
    ∀ {ts us : List Tree}, splitItems keepBlank ts = .ok us →
      EveryItem (Items (OneLineEach keepBlank)) us
  | [], _, h => by cases h; trivial
  | t :: rest, _, h => by
    obtain ⟨rest', hrest, ⟨lines, -, rfl⟩ | ⟨u, -, ht, rfl⟩⟩ := splitItems_cons h
    · exact everyItem_textElements lines (everyItem_oneLineEach hrest)
    · exact ⟨every_oneLineEach ht, everyItem_oneLineEach hrest⟩

theorem everyField_oneLineEach {keepBlank : Bool} :
    ∀ {fields fields' : List (Text × Tree)}, splitFields keepBlank fields = .ok fields' →
      EveryField (Items (OneLineEach keepBlank)) fields'
  | [], _, h => by cases h; trivial
  | (name, t) :: rest, _, h => by
    obtain ⟨u, rest', hrest, ht, rfl⟩ := splitFields_cons h
    exact ⟨every_oneLineEach ht, everyField_oneLineEach hrest⟩

end

/-- The tree that splitting returns has an element for each line where the tree before had a text
element of several in a sequence, the lines making up its text, and it is the same elsewhere. The
text elements of its sequences hold one line each. A node that gives way to no elements, as in a
field, keeps its names and its leaves and so its text. -/
theorem splitLines_elements {keepBlank : Bool} {t u : Tree} (h : t.splitLines keepBlank = .ok u) :
    SplitTo keepBlank t u ∧ u.Every (Items (OneLineEach keepBlank)) ∧
      ∀ fields v, SplitTo keepBlank (.keyed fields) v →
        ∃ fields', v = .keyed fields' ∧ fields'.map Prod.fst = fields.map Prod.fst ∧
          ∀ name value, Fields.get? fields name = some (.leaf value) →
            Fields.get? fields' name = some (.leaf value) := by
  rw [splitLines_eq_split] at h
  refine ⟨splitTo_of_split h, every_oneLineEach h, ?_⟩
  intro fields v hv
  cases hv with
  | @keyed _ fields' hfields => exact ⟨fields', rfl, hfields.get?_leaf⟩

/-- A text of two lines with a blank one before each, in a sequence and in a field. -/
def spacedTexts : Tree :=
  .keyed [("elements", .seq [textElement "\na\n\nb", .leaf .null]), (valueField, textElement "a\nb")]

/-- The same without its blank lines. -/
def spacedTextsSplit : Tree :=
  .keyed [("elements", .seq [textElement "a\n", textElement "b", .leaf .null]),
    (valueField, textElement "a\nb")]

theorem splitLines_elements_spacedTexts :
    spacedTexts.splitLines false = .ok spacedTextsSplit ∧
      SplitTo false spacedTexts spacedTextsSplit ∧
      spacedTextsSplit.Every (Items (OneLineEach false)) := by
  have hsplit : spacedTexts.splitLines false = .ok spacedTextsSplit := by
    rw [splitLines_eq_split]
    rfl
  obtain ⟨hto, hlines, -⟩ := splitLines_elements hsplit
  exact ⟨hsplit, hto, hlines⟩

end Tree

end FluentFixtures
