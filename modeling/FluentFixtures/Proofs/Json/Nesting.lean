import FluentFixtures.Proofs.Json.Rows

/-!
# Nesting told from brackets

How many containers a line of a document is inside can be told from the lines
without their indents: behind one that ends with an opening bracket the lines are
a container deeper, up to the one that starts with the closing bracket. This is
the depth of the row: `nesting_rows`.
-/

namespace FluentFixtures.Json

def isOpening (c : CodePoint) : Bool := c = 0x5B || c = 0x7B

def isClosing (c : CodePoint) : Bool := c = 0x5D || c = 0x7D

def isBracket (c : CodePoint) : Bool := isOpening c || isClosing c

/-- Whether a line opens a container around the lines after it. -/
def opens (line : Text) : Bool := line.getLast?.any isOpening

/-- Whether a line closes the container around the lines before it. -/
def closes (line : Text) : Bool := line.head?.any isClosing

/-- The number of containers that each line is inside, where those before left `level` open. -/
def nesting (level : Nat) : List Text → List Nat
  | [] => []
  | line :: rest =>
    let here := if closes line then level - 1 else level
    here :: nesting (if opens line then here + 1 else here) rest

/-! ## Brackets at the ends of rows -/

theorem isClosing_of_isOpening {c : CodePoint} (h : isOpening c = true) : isClosing c = false := by
  simp only [isOpening, Bool.or_eq_true, decide_eq_true_eq] at h
  rcases h with rfl | rfl <;> rfl

theorem isOpening_of_isClosing {c : CodePoint} (h : isClosing c = true) : isOpening c = false := by
  simp only [isClosing, Bool.or_eq_true, decide_eq_true_eq] at h
  rcases h with rfl | rfl <;> rfl

theorem opens_append (s : Text) {t : Text} (ht : t ≠ []) : opens (s ++ t) = opens t := by
  rw [opens, List.getLast?_append_of_ne_nil s ht, opens]

theorem closes_append {s : Text} (hs : s ≠ []) (t : Text) : closes (s ++ t) = closes s := by
  rw [closes, List.head?_append_of_ne_nil s hs, closes]

theorem IsTrail.opens_append {t trail : Text} (h : IsTrail trail) (ht : opens t = false) :
    opens (t ++ trail) = false := by
  rcases h with rfl | rfl
  · rwa [List.append_nil]
  · exact Json.opens_append t (List.cons_ne_nil _ _)

theorem IsLead.closes_append {t lead : Text} (h : IsLead lead) (ht : closes t = false) :
    closes (lead ++ t) = false := by
  rcases h with rfl | ⟨name, rfl⟩
  · exact ht
  · have hlabel : closes (label name) = false := by
      rw [label, escape_quote]
      rfl
    rw [Json.closes_append (visible_label name).ne_nil, hlabel]

theorem isBracket_of_isDigit {c : CodePoint} (h : c.isDigit = true) : isBracket c = false := by
  cases hc : isBracket c with
  | false => rfl
  | true =>
    simp only [isBracket, isOpening, isClosing, Bool.or_eq_true, decide_eq_true_eq] at hc
    rcases hc with (rfl | rfl) | (rfl | rfl) <;> exact absurd h (by decide)

theorem leafText_cases (value : Scalar) :
    (∃ s, leafText value = 0x22 :: (s ++ [0x22])) ∨ ∀ c ∈ leafText value, isBracket c = false := by
  have hword {word : Text} (h : word.all (fun c => !isBracket c) = true) :
      ∀ c ∈ word, isBracket c = false := fun c hc => by simpa using List.all_eq_true.mp h c hc
  have hnumeral {n : Numeral} (hn : n.Canonical) : ∀ c ∈ n.text, isBracket c = false :=
    Numeral.forall_mem_text hn (fun _ => isBracket_of_isDigit) (by decide)
  cases value with
  | null => exact .inr (hword rfl)
  | bool value => cases value <;> exact .inr (hword rfl)
  | int n =>
    rw [leafText, scalarText, escape_integer]
    exact .inr (hnumeral (Numeral.canonical_ofInt n))
  | double d =>
    cases d with
    | finite negative rank =>
      rw [leafText, scalarText, doubleText, escape_written]
      exact .inr (hnumeral (Numeral.canonical_ofDouble negative rank))
    | infinite negative => cases negative <;> exact .inr (hword rfl)
    | nan => exact .inr (hword rfl)
  | str s => exact .inl ⟨pointTexts s, escape_quote s⟩

theorem flat_leafText (value : Scalar) :
    opens (leafText value) = false ∧ closes (leafText value) = false := by
  rcases leafText_cases value with ⟨s, hs⟩ | hplain
  · rw [hs]
    refine ⟨?_, rfl⟩
    rw [← List.cons_append]
    exact opens_append _ (List.cons_ne_nil _ _)
  · have hflat {c : CodePoint} (hc : c ∈ leafText value) :
        isOpening c = false ∧ isClosing c = false := Bool.or_eq_false_iff.mp (hplain c hc)
    constructor
    · rw [opens, Option.any_eq_false]
      exact fun c hc => (hflat (List.mem_of_getLast? hc)).1
    · rw [closes, Option.any_eq_false]
      exact fun c hc => (hflat (List.mem_of_head? hc)).2

theorem flat_append {before t after : Text} (hbefore : IsLead before) (hafter : IsTrail after)
    (ht : t ≠ []) (hopens : opens t = false) (hcloses : closes t = false) :
    opens (before ++ t ++ after) = false ∧ closes (before ++ t ++ after) = false := by
  constructor
  · exact hafter.opens_append ((opens_append before ht).trans hopens)
  · rw [List.append_assoc]
    exact hbefore.closes_append ((closes_append ht after).trans hcloses)

/-! ## Rows -/

section

variable {depth : Nat} {before after : Text}

theorem nesting_flat {line : Text} (h : opens line = false ∧ closes line = false)
    (rest : List Text) : nesting depth (line :: rest) = depth :: nesting depth rest := by
  simp [nesting, h]

theorem nesting_opening {line : Text} (hopens : opens line = true) (hcloses : closes line = false)
    (rest : List Text) : nesting depth (line :: rest) = depth :: nesting (depth + 1) rest := by
  simp [nesting, hopens, hcloses]

theorem nesting_closing {line : Text} (hopens : opens line = false) (hcloses : closes line = true)
    (rest : List Text) : nesting (depth + 1) (line :: rest) = depth :: nesting depth rest := by
  simp [nesting, hopens, hcloses]

/-- Brackets around rows that are told one deeper leave the level as it was. -/
theorem nesting_enclose (hbefore : IsLead before) (hafter : IsTrail after)
    {opening closing : CodePoint} (hopening : isOpening opening = true)
    (hclosing : isClosing closing = true) {inner : List Row}
    (hinner : ∀ more, nesting (depth + 1) (inner.map Row.text ++ more) =
      inner.map Row.depth ++ nesting (depth + 1) more) (more : List Text) :
    nesting depth ((enclose depth before after opening closing inner).map Row.text ++ more) =
      (enclose depth before after opening closing inner).map Row.depth ++ nesting depth more := by
  have hopens : opens [closing] = false := isOpening_of_isClosing hclosing
  have hcloses : closes [opening] = false := isClosing_of_isOpening hopening
  by_cases hinside : inner = []
  · subst hinside
    exact nesting_flat
      (flat_append (t := [opening, closing]) hbefore hafter (List.cons_ne_nil _ _) hopens hcloses)
      more
  · have hfirst : opens (before ++ [opening]) = true :=
      (opens_append before (List.cons_ne_nil _ _)).trans hopening
    have hlast : opens (closing :: after) = false := hafter.opens_append hopens
    rw [enclose_of_ne_nil _ _ _ _ _ hinside, List.map_cons, List.cons_append,
      nesting_opening hfirst (hbefore.closes_append hcloses), List.map_append, List.append_assoc,
      hinner, List.map_singleton, List.singleton_append, nesting_closing hlast hclosing]
    simp

end

mutual

/-- The brackets of the rows of a tree tell their depths, and leave the level as it was. -/
theorem nesting_rows (depth : Nat) {before after : Text} (hbefore : IsLead before)
    (hafter : IsTrail after) : ∀ (t : Tree) (more : List Text),
    nesting depth ((rows depth before after t).map Row.text ++ more) =
      (rows depth before after t).map Row.depth ++ nesting depth more
  | .leaf value, more => by
    obtain ⟨hopens, hcloses⟩ := flat_leafText value
    exact nesting_flat
      (flat_append hbefore hafter (visible_leafText value).ne_nil hopens hcloses) more
  | .seq items, more =>
    nesting_enclose hbefore hafter rfl rfl (nesting_itemRows (depth + 1) items) more
  | .keyed fields, more =>
    nesting_enclose hbefore hafter rfl rfl (nesting_fieldRows (depth + 1) fields) more

theorem nesting_itemRows (depth : Nat) : ∀ (items : List Tree) (more : List Text),
    nesting depth ((itemRows depth items).map Row.text ++ more) =
      (itemRows depth items).map Row.depth ++ nesting depth more
  | [], _ => rfl
  | t :: rest, more => by
    rw [itemRows, List.map_append, List.map_append, List.append_assoc, List.append_assoc,
      nesting_rows depth (.inl rfl) (isTrail_comma rest) t, nesting_itemRows depth rest]

theorem nesting_fieldRows (depth : Nat) : ∀ (fields : List (Text × Tree)) (more : List Text),
    nesting depth ((fieldRows depth fields).map Row.text ++ more) =
      (fieldRows depth fields).map Row.depth ++ nesting depth more
  | [], _ => rfl
  | (name, t) :: rest, more => by
    rw [fieldRows, List.map_append, List.map_append, List.append_assoc, List.append_assoc,
      nesting_rows depth (.inr ⟨name, rfl⟩) (isTrail_comma rest) t, nesting_fieldRows depth rest]

end

example : nesting 0 ["[", "\"[\",", "[],", "\x7b", "\"a\": 1", "\x7d", "]"] = [0, 1, 1, 1, 2, 1, 0] := by
  decide

end FluentFixtures.Json
