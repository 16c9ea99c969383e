import FluentFixtures.Proofs.Json.Layout
import FluentFixtures.Proofs.Json.Pairs

/-!
# The length of a document

In print, each half of a surrogate pair takes six code points, and no code point
takes more. So joining the pairs of a tree leaves it as it is or makes its text
shorter: `joinPairs_eq_or_shorter`. A tree with a pair to join and the tree with
it joined have different documents.
-/

namespace FluentFixtures.Json

/-! ## Strings -/

theorem length_pointText_le (c : CodePoint) : (pointText c).length ≤ 6 := by
  rcases pointText_cases c with ⟨e, htext, -⟩ | ⟨htext, -⟩ | ⟨htext, -⟩
  · rw [htext]
    exact (by decide : 2 ≤ 6)
  · rw [htext]
    exact le_rfl
  · rw [htext]
    exact (by decide : 1 ≤ 6)

theorem length_pointText_surrogate {c : CodePoint} (hc : c.isSurrogate = true) :
    (pointText c).length = 6 := by
  rcases pointText_cases c with ⟨e, -, -, he⟩ | ⟨htext, -⟩ | ⟨-, -, -, -, hplain⟩
  · cases (isSurrogate_of_shortEscape? he).symm.trans hc
  · rw [htext]
    rfl
  · cases hplain.symm.trans hc

theorem length_pointTexts_cons (c : CodePoint) (t : Text) :
    (pointTexts (c :: t)).length = (pointText c).length + (pointTexts t).length := by
  rw [pointTexts, List.flatMap_cons, List.length_append]
  rfl

/-- Joining the pairs of a string leaves it as it is or makes its print shorter. -/
theorem string_eq_or_shorter : ∀ s : Text,
    s.joinPairs = s ∨ (pointTexts s.joinPairs).length < (pointTexts s).length
  | [] => .inl rfl
  | [_] => .inl rfl
  | high :: low :: rest => by
    by_cases hpair : high.isHighSurrogate = true ∧ low.isLowSurrogate = true
    · obtain ⟨hhigh, hlow⟩ := hpair
      have hrest : (pointTexts (Text.joinPairs rest)).length ≤ (pointTexts rest).length := by
        rcases string_eq_or_shorter rest with heq | hshorter
        · rw [heq]
        · exact hshorter.le
      have hjoined := length_pointText_le (CodePoint.joinSurrogates high low)
      have hsix := length_pointText_surrogate (CodePoint.isSurrogate_of_high hhigh)
      have hsix' := length_pointText_surrogate (CodePoint.isSurrogate_of_low hlow)
      right
      rw [Text.joinPairs_pair hhigh hlow]
      simp only [length_pointTexts_cons]
      omega
    · rw [← Bool.and_eq_true] at hpair
      rw [Text.joinPairs, if_neg hpair]
      rcases string_eq_or_shorter (low :: rest) with heq | hshorter
      · exact .inl (congrArg (high :: ·) heq)
      · right
        rw [length_pointTexts_cons, length_pointTexts_cons high]
        omega

/-! ## Trees -/

section Lengths

variable (indent depth : Nat)

/-- The length of the text of a tree inside `depth` containers. -/
def treeLength (t : Tree) : Nat := (Surrogate.escape (render indent depth t)).length

def itemsLength (items : List Tree) : Nat :=
  (Surrogate.escape (renderItems indent depth items)).length

def fieldsLength (fields : Fields) : Nat :=
  (Surrogate.escape (renderFields indent depth fields)).length

def fieldLength (name : Text) (t : Tree) : Nat :=
  (newline indent depth).length + (pointTexts name).length + treeLength indent depth t + 5

theorem treeLength_str (s : Text) :
    treeLength indent depth (.leaf (.str s)) = (pointTexts s).length + 2 := by
  rw [treeLength, render, scalarText, escape_quote]
  simp

theorem itemsLength_cons (t : Tree) (items : List Tree) :
    itemsLength indent depth (t :: items) =
      (newline indent depth).length + treeLength indent depth t + 1 +
        itemsLength indent depth items := by
  have htext := congrArg List.length (escape_renderItems indent depth t items)
  simp only [List.length_append, List.length_cons] at htext
  rw [itemsLength, htext, itemsLength, treeLength]
  omega

theorem treeLength_seq (t : Tree) (items : List Tree) :
    treeLength indent depth (.seq (t :: items)) =
      itemsLength indent (depth + 1) (t :: items) + (newline indent depth).length + 1 := by
  have htext := congrArg List.length (escape_render_seq indent depth t items)
  simp only [List.length_append, List.length_cons, List.length_nil] at htext
  rw [itemsLength_cons, treeLength, htext, itemsLength, treeLength]
  omega

theorem fieldsLength_cons (name : Text) (t : Tree) (fields : Fields) :
    fieldsLength indent depth ((name, t) :: fields) =
      fieldLength indent depth name t + fieldsLength indent depth fields := by
  have htext := congrArg List.length (escape_renderFields indent depth t name fields)
  simp only [escape_quote, List.length_append, List.length_cons, List.length_nil] at htext
  rw [fieldsLength, htext, fieldsLength, fieldLength, treeLength]
  omega

theorem treeLength_keyed (field : Text × Tree) (fields : Fields) :
    treeLength indent depth (.keyed (field :: fields)) =
      fieldsLength indent (depth + 1) (field :: fields) + (newline indent depth).length + 1 := by
  have htext := congrArg List.length (escape_render_keyed indent depth field.2 field.1 fields)
  simp only [escape_quote, List.length_append, List.length_cons, List.length_nil] at htext
  rw [fieldsLength_cons, treeLength, htext, fieldsLength, fieldLength, treeLength]
  omega

theorem fieldsLength_append (fields more : Fields) :
    fieldsLength indent depth (fields ++ more) =
      fieldsLength indent depth fields + fieldsLength indent depth more := by
  induction fields with
  | nil => exact (Nat.zero_add _).symm
  | cons field rest ih =>
    rw [List.cons_append, fieldsLength_cons, fieldsLength_cons, ih]
    omega

theorem put_eq_or_shorter (fields : Fields) (name : Text) (t : Tree) :
    Fields.put fields name t = fields ++ [(name, t)] ∨
      fieldsLength indent depth (Fields.put fields name t) <
        fieldsLength indent depth (fields ++ [(name, t)]) := by
  induction fields with
  | nil => exact .inl rfl
  | cons first rest ih =>
    rw [Fields.put]
    split
    · have hfirst : 5 ≤ fieldLength indent depth first.1 first.2 := Nat.le_add_left _ _
      right
      rw [fieldsLength_append, fieldsLength_cons, fieldsLength_cons, fieldsLength_cons]
      omega
    · rcases ih with heq | hshorter
      · exact .inl (congrArg (first :: ·) heq)
      · right
        rw [List.cons_append, fieldsLength_cons, fieldsLength_cons]
        omega

end Lengths

variable (indent : Nat)

/-- A field that is set with its pairs joined comes last as it is or makes the text shorter. -/
theorem field_eq_or_shorter {depth : Nat} {t : Tree}
    (ht : t.joinPairs = t ∨ treeLength indent depth t.joinPairs < treeLength indent depth t)
    (done : Fields) (name : Text) :
    Fields.put done name.joinPairs t.joinPairs = done ++ [(name, t)] ∨
      fieldsLength indent depth (Fields.put done name.joinPairs t.joinPairs) <
        fieldsLength indent depth (done ++ [(name, t)]) := by
  have hput := put_eq_or_shorter indent depth done name.joinPairs t.joinPairs
  have hname := string_eq_or_shorter name
  by_cases hsame : name.joinPairs = name ∧ t.joinPairs = t
  · obtain ⟨hname, ht⟩ := hsame
    rwa [hname, ht] at hput ⊢
  · right
    have hfield : fieldLength indent depth name.joinPairs t.joinPairs <
        fieldLength indent depth name t := by
      rw [fieldLength, fieldLength]
      rcases hname with hname | hname
      · have ht := ht.resolve_left fun ht => hsame ⟨hname, ht⟩
        rw [hname]
        omega
      · rcases ht with ht | ht
        · rw [ht]
          omega
        · omega
    have hadded : fieldsLength indent depth (done ++ [(name.joinPairs, t.joinPairs)]) <
        fieldsLength indent depth (done ++ [(name, t)]) := by
      rw [fieldsLength_append, fieldsLength_append, fieldsLength_cons, fieldsLength_cons]
      omega
    rcases hput with heq | hshorter
    · rwa [heq]
    · exact hshorter.trans hadded

mutual

/-- Joining the pairs of a tree leaves it as it is or makes its text shorter. -/
theorem joinPairs_eq_or_shorter : ∀ (depth : Nat) (t : Tree), t.joinPairs = t ∨
    treeLength indent depth t.joinPairs < treeLength indent depth t
  | _, .leaf value => by
    cases value with
    | str s =>
      rcases string_eq_or_shorter s with heq | hshorter
      · exact .inl (congrArg (fun s => Tree.leaf (.str s)) heq)
      · right
        rw [Tree.joinPairs, Scalar.joinPairs, treeLength_str, treeLength_str]
        omega
    | null | bool b | int n | double d => exact .inl rfl
  | _, .seq [] => .inl rfl
  | depth, .seq (t :: items) => by
    rcases items_eq_or_shorter (depth + 1) (t :: items) with heq | hshorter
    · exact .inl (congrArg Tree.seq heq)
    · right
      rw [Tree.joinPairs, Tree.joinItems, treeLength_seq, treeLength_seq]
      rw [Tree.joinItems] at hshorter
      omega
  | _, .keyed [] => .inl rfl
  | depth, .keyed (field :: fields) => by
    rcases fields_eq_or_shorter (depth + 1) (field :: fields) [] with heq | hshorter
    · exact .inl (congrArg Tree.keyed heq)
    · right
      rw [Tree.joinPairs, treeLength_keyed]
      cases hjoined : Tree.joinFields [] (field :: fields) with
      | nil =>
        have hempty : treeLength indent depth (.keyed []) = 2 := rfl
        rw [hempty, fieldsLength_cons, fieldLength]
        omega
      | cons first rest =>
        rw [hjoined] at hshorter
        rw [treeLength_keyed]
        exact Nat.add_lt_add_right (Nat.add_lt_add_right hshorter _) 1

theorem items_eq_or_shorter : ∀ (depth : Nat) (items : List Tree), Tree.joinItems items = items ∨
    itemsLength indent depth (Tree.joinItems items) < itemsLength indent depth items
  | _, [] => .inl rfl
  | depth, t :: items => by
    have ht := joinPairs_eq_or_shorter depth t
    have hitems := items_eq_or_shorter depth items
    rw [Tree.joinItems, itemsLength_cons, itemsLength_cons]
    rcases ht with ht | ht
    · rw [ht]
      rcases hitems with hitems | hitems
      · exact .inl (congrArg (t :: ·) hitems)
      · right
        omega
    · right
      rcases hitems with hitems | hitems
      · rw [hitems]
        omega
      · omega

theorem fields_eq_or_shorter : ∀ (depth : Nat) (fields : List (Text × Tree)) (done : Fields),
    Tree.joinFields done fields = done ++ fields ∨
      fieldsLength indent depth (Tree.joinFields done fields) <
        fieldsLength indent depth (done ++ fields)
  | _, [], done => .inl (List.append_nil done).symm
  | depth, (name, t) :: fields, done => by
    have hfield := field_eq_or_shorter indent (joinPairs_eq_or_shorter depth t) done name
    have hrest := fields_eq_or_shorter depth fields (Fields.put done name.joinPairs t.joinPairs)
    have happend : done ++ (name, t) :: fields = (done ++ [(name, t)]) ++ fields := by simp
    rw [Tree.joinFields, happend]
    rcases hfield with hfield | hfield
    · rwa [hfield] at hrest ⊢
    · right
      have hshorter : fieldsLength indent depth
            (Fields.put done name.joinPairs t.joinPairs ++ fields) <
          fieldsLength indent depth (done ++ [(name, t)] ++ fields) := by
        rw [fieldsLength_append, fieldsLength_append _ _ (done ++ _)]
        exact Nat.add_lt_add_right hfield _
      rcases hrest with hrest | hrest
      · rwa [hrest]
      · exact hrest.trans hshorter

end

end FluentFixtures.Json
