import FluentFixtures.Proofs.Passes.Faults
import FluentFixtures.Proofs.Text.LineCuts

/-!
# Splits absorb each other

Splitting what was split is splitting once, blank lines staying if both times
keep them, and what cannot be split once cannot be split twice either. Splitting
without blank lines leaves what splitting with them does, less the elements of
these lines: `splitLines_absorb`.
-/

namespace FluentFixtures.Tree

/-- Whether a tree is a text element of a blank line. -/
def isBlankElement : Tree → Bool
  | .keyed fields =>
    (keyed fields).isTextElement && (Fields.get? fields valueField).any (isString lineFeedText)
  | _ => false

mutual

/-- The tree without the elements of blank lines among the items of its sequences. -/
def withoutBlankElements : Tree → Tree
  | .leaf value => .leaf value
  | .seq items => .seq (withoutBlankItems items)
  | .keyed fields => .keyed (withoutBlankFields fields)

def withoutBlankItems : List Tree → List Tree
  | [] => []
  | t :: rest =>
    if t.isBlankElement then withoutBlankItems rest
    else t.withoutBlankElements :: withoutBlankItems rest

def withoutBlankFields : List (Text × Tree) → List (Text × Tree)
  | [] => []
  | (name, t) :: rest => (name, t.withoutBlankElements) :: withoutBlankFields rest

end

theorem isBlankElement_textElement (line : Text) :
    (textElement line).isBlankElement = decide (line = lineFeedText) := rfl

theorem multiLine_of_isBlankElement {t : Tree} (h : t.isBlankElement = true) :
    t.MultiLine lineFeedText := by
  cases t with
  | leaf value => cases h
  | seq items => cases h
  | keyed fields =>
    rw [isBlankElement, Bool.and_eq_true] at h
    obtain ⟨htext, hany⟩ := h
    obtain ⟨content, hget, hcontent⟩ := (Option.any_eq_true _ _).mp hany
    exact ⟨htext, ⟨fields, rfl, isString_iff.mp hcontent ▸ hget⟩, List.mem_cons_self⟩

/-- An item that is kept is no blank line, also after its parts are split. -/
theorem isBlankElement_of_kept {a b : Bool} {t u : Tree} (hitem : itemLines? a t = .ok none)
    (ht : t.split b = .ok u) : u.isBlankElement = false := by
  rw [← itemLines?_split ht] at hitem
  rw [← Bool.not_eq_true]
  exact fun hblank => not_multiLine_of_kept hitem _ (multiLine_of_isBlankElement hblank)

theorem withoutBlankItems_lines (lines : List Text) (rest : List Tree) :
    withoutBlankItems (lines.map textElement ++ rest) =
      (lines.filter (· ≠ lineFeedText)).map textElement ++ withoutBlankItems rest := by
  induction lines with
  | nil => rfl
  | cons line more ih =>
    rw [List.map_cons, List.cons_append, withoutBlankItems, isBlankElement_textElement, ih]
    by_cases hblank : line = lineFeedText
    · simp [hblank]
    · simp [hblank, textElement, withoutBlankElements, withoutBlankFields]

mutual

/-- A split that leaves blank lines out does what one that keeps them does, less their elements. -/
theorem split_false_of_split :
    ∀ {t u : Tree}, t.split true = .ok u → t.split false = .ok u.withoutBlankElements
  | .leaf _, _, h => by cases h; rfl
  | .seq items, _, h => by
    obtain ⟨hfault, items', hitems, rfl⟩ := split_seq h
    rw [split, splitFault?_flag false true, hfault, splitItems_false_of_splitItems hitems]
    rfl
  | .keyed fields, _, h => by
    obtain ⟨fields', hfields, rfl⟩ := split_keyed h
    rw [split, splitFields_false_of_splitFields hfields]
    rfl

theorem splitItems_false_of_splitItems :
    ∀ {ts us : List Tree}, splitItems true ts = .ok us →
      splitItems false ts = .ok (withoutBlankItems us)
  | [], _, h => by cases h; rfl
  | t :: rest, _, h => by
    obtain ⟨rest', hrest, ⟨lines, hitem, rfl⟩ | ⟨u, hitem, ht, rfl⟩⟩ := splitItems_cons h
    · obtain ⟨content, hmulti, rfl⟩ := itemLines?_eq_some_iff.mp hitem
      have hagain : itemLines? false t = .ok (some (content.lines false)) :=
        itemLines?_eq_some_iff.mpr ⟨content, hmulti, rfl⟩
      rw [splitItems, hagain, splitItems_false_of_splitItems hrest, withoutBlankItems_lines,
        Text.lines_false]
      rfl
    · rw [splitItems, itemLines?_eq_none hitem, splitItems_false_of_splitItems hrest,
        split_false_of_split ht, withoutBlankItems, isBlankElement_of_kept hitem ht]
      rfl

theorem splitFields_false_of_splitFields :
    ∀ {fields fields' : List (Text × Tree)}, splitFields true fields = .ok fields' →
      splitFields false fields = .ok (withoutBlankFields fields')
  | [], _, h => by cases h; rfl
  | (name, t) :: rest, _, h => by
    obtain ⟨u, rest', hrest, ht, rfl⟩ := splitFields_cons h
    rw [splitFields, splitFields_false_of_splitFields hrest, split_false_of_split ht]
    rfl

end

/-- What cannot be split cannot be split with the other flag, for the same reason. -/
theorem split_error_flag {a : Bool} {t : Tree} {e : SplitError} (h : t.split a = .error e)
    (b : Bool) : t.split b = .error e := by
  rw [← fault?_eq_some_iff, fault?_split] at h ⊢
  rw [splitFault?_flag b a, h]

/-- A split of what was split does what one split does that keeps blank lines if both keep them. A
split without blank lines does what one with them does, less the elements of these. -/
theorem splitLines_absorb (t : Tree) :
    (∀ a b, (t.splitLines a >>= fun u => u.splitLines b) = t.splitLines (a && b)) ∧
      t.splitLines false = (t.splitLines true).map withoutBlankElements := by
  simp only [splitLines_eq_split]
  constructor
  · intro a b
    cases h : t.split a with
    | error e => exact (split_error_flag h (a && b)).symm
    | ok u => exact split_split h
  · cases h : t.split true with
    | error e => exact split_error_flag h false
    | ok u => exact split_false_of_split h

end FluentFixtures.Tree
