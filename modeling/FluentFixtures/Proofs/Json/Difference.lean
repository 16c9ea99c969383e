import FluentFixtures.Proofs.Json.Nesting
import FluentFixtures.Proofs.Json.Writable
import FluentFixtures.Proofs.Tree.Replace

/-!
# Documents that differ in a leaf or in the indent

A tree in another tree has rows of its own, and those before and after them stay
when it is replaced: `rows_setAt`. So another leaf changes one line of a document,
the line that holds it. Another indent changes the spaces in front of the lines,
each by its depth, and nothing else: `write_lines`.
-/

namespace FluentFixtures.Json

open FluentFixtures.Tree (Step Address)

/-- What stands before a tree on its first line when it is a step away from its container. -/
def stepLabel : Step → Text
  | .field name => label name
  | .item _ => []

/-- What stands before the tree at an address, where something stands before the whole. -/
def labelFrom (before : Text) (p : Address) : Text := (p.getLast?.map stepLabel).getD before

/-- The line of a leaf at an address: its indent, the name of its field, its text, and a comma if
more follows. -/
def leafLine (indent : Nat) (p : Address) (value : Scalar) (trail : Text) : Text :=
  margin indent p.length ++ labelFrom [] p ++ leafText value ++ trail

/-- Whether a tree has a document with a line between others. -/
def HasLine (indent : Int) (t : Tree) (above : List Text) (line : Text) (below : List Text) :
    Prop :=
  ∃ document, write indent t = .ok document ∧
    Text.splitOn Newline.lineFeed document = above ++ line :: below

/-- Lines behind the indents that their brackets ask for. -/
def indented (indent : Nat) (lines : List Text) : List Text :=
  List.zipWith (fun depth line => margin indent depth ++ line) (nesting 0 lines) lines

/-! ## The rows of a tree in another one -/

theorem labelFrom_cons (before : Text) (first : Step) (rest : Address) :
    labelFrom before (first :: rest) = labelFrom (stepLabel first) rest := by
  cases hlast : rest.getLast? <;> simp [labelFrom, List.getLast?_cons, hlast]

theorem comma_append {α : Type} (before : List α) (a : α) (after : List α) :
    comma (before ++ a :: after) = [0x2C] := by
  cases before <;> rfl

theorem itemRows_append (depth : Nat) (before : List Tree) (t : Tree) (after : List Tree) :
    itemRows depth (before ++ t :: after) =
      before.flatMap (rows depth [] [0x2C]) ++ (rows depth [] (comma after) t ++
        itemRows depth after) := by
  induction before with
  | nil => rfl
  | cons first rest ih =>
    rw [List.cons_append, itemRows, comma_append, ih, List.flatMap_cons, List.append_assoc]

theorem fieldRows_append (depth : Nat) (before : Fields) (name : Text) (t : Tree)
    (after : Fields) :
    fieldRows depth (before ++ (name, t) :: after) =
      before.flatMap (fun field => rows depth (label field.1) [0x2C] field.2) ++
        (rows depth (label name) (comma after) t ++ fieldRows depth after) := by
  induction before with
  | nil => rfl
  | cons first rest ih =>
    obtain ⟨name', t'⟩ := first
    rw [List.cons_append, fieldRows, comma_append, ih, List.flatMap_cons, List.append_assoc]

theorem enclose_append (depth : Nat) (before after : Text) (opening closing : CodePoint)
    (above : List Row) {part : List Row} (hpart : part ≠ []) (below : List Row) :
    enclose depth before after opening closing (above ++ (part ++ below)) =
      ⟨depth, before ++ [opening]⟩ :: above ++ part ++ (below ++ [⟨depth, closing :: after⟩]) := by
  rw [enclose_of_ne_nil]
  · simp
  · simp [hpart]

theorem rows_seq_append (depth : Nat) (before after : Text) (front back : List Tree) :
    ∃ above below, ∀ t, rows depth before after (.seq (front ++ t :: back)) =
      above ++ rows (depth + 1) [] (comma back) t ++ below := by
  refine ⟨⟨depth, before ++ [0x5B]⟩ :: front.flatMap (rows (depth + 1) [] [0x2C]),
    itemRows (depth + 1) back ++ [⟨depth, 0x5D :: after⟩], fun t => ?_⟩
  rw [rows, itemRows_append, enclose_append _ _ _ _ _ _ (rows_ne_nil _ _ _ t)]

theorem rows_keyed_append (depth : Nat) (before after : Text) (front : Fields) (name : Text)
    (back : Fields) :
    ∃ above below, ∀ t, rows depth before after (.keyed (front ++ (name, t) :: back)) =
      above ++ rows (depth + 1) (label name) (comma back) t ++ below := by
  refine ⟨⟨depth, before ++ [0x7B]⟩ ::
      front.flatMap (fun field => rows (depth + 1) (label field.1) [0x2C] field.2),
    fieldRows (depth + 1) back ++ [⟨depth, 0x7D :: after⟩], fun t => ?_⟩
  rw [rows, fieldRows_append, enclose_append _ _ _ _ _ _ (rows_ne_nil _ _ _ t)]

section SetAt

variable {t child old : Tree} {step : Step}

/-- The rows before and after those of a child stay when it is replaced. -/
theorem rows_setChild (h : t.child? step = some child) (depth : Nat) (before after : Text) :
    ∃ above below trail, IsTrail trail ∧
      rows depth before after t =
        above ++ rows (depth + 1) (stepLabel step) trail child ++ below ∧
      ∀ new, rows depth before after (t.setChild step new) =
        above ++ rows (depth + 1) (stepLabel step) trail new ++ below := by
  cases t with
  | leaf value => cases h
  | seq items =>
    cases step with
    | field name => cases h
    | item index =>
      obtain ⟨front, back, rfl, hset⟩ := Tree.exists_set h
      obtain ⟨above, below, hrows⟩ := rows_seq_append depth before after front back
      refine ⟨above, below, comma back, isTrail_comma back, hrows child, fun new => ?_⟩
      rw [Tree.setChild, hset]
      exact hrows new
  | keyed fields =>
    cases step with
    | field name =>
      obtain ⟨front, back, rfl, hput⟩ := Tree.exists_put h
      obtain ⟨above, below, hrows⟩ := rows_keyed_append depth before after front name back
      refine ⟨above, below, comma back, isTrail_comma back, hrows child, fun new => ?_⟩
      rw [Tree.setChild, hput]
      exact hrows new
    | item index => cases h

theorem rows_setAt {p : Address} (h : t.at? p = some old) (depth : Nat) (before : Text)
    {after : Text} (hafter : IsTrail after) :
    ∃ above below trail, IsTrail trail ∧
      rows depth before after t =
        above ++ rows (depth + p.length) (labelFrom before p) trail old ++ below ∧
      ∀ new, rows depth before after (t.setAt p new) =
        above ++ rows (depth + p.length) (labelFrom before p) trail new ++ below := by
  induction p generalizing t depth before after with
  | nil =>
    obtain rfl := Option.some.inj h
    exact ⟨[], [], after, hafter, by simp [labelFrom], fun new => by simp [labelFrom, Tree.setAt]⟩
  | cons step rest ih =>
    obtain ⟨child, hchild, hold⟩ := Option.bind_eq_some_iff.mp h
    obtain ⟨above, below, middle, hmiddle, hrows, hset⟩ := rows_setChild hchild depth before after
    obtain ⟨above', below', trail, htrail, hrows', hset'⟩ :=
      ih hold (depth + 1) (stepLabel step) hmiddle
    have hdepth : depth + 1 + rest.length = depth + (step :: rest).length := by
      rw [List.length_cons]
      omega
    rw [hdepth] at hrows' hset'
    refine ⟨above ++ above', below' ++ below, trail, htrail, ?_, fun new => ?_⟩
    · rw [hrows, hrows', labelFrom_cons]
      simp only [List.append_assoc]
    · rw [Tree.setAt_cons hchild, hset, hset', labelFrom_cons]
      simp only [List.append_assoc]

end SetAt

/-! ## Documents -/

variable {indent : Int} {t : Tree}

/-- A tree that can be written has a document whose lines are its rows. -/
theorem exists_lines (ht : t.Writable) (hindents : Indents indent t) :
    ∃ document, write indent t = .ok document ∧
      Text.splitOn Newline.lineFeed document = (rows 0 [] [] t).map (Row.line indent.toNat) := by
  obtain ⟨document, hwrite⟩ := exists_write ht hindents
  exact ⟨document, hwrite, lines_of_write hwrite⟩

/-- The line of a leaf between the rows above and below it. -/
theorem map_line_leaf (indent : Nat) (p : Address) (value : Scalar) (trail : Text)
    (above below : List Row) :
    (above ++ rows (0 + p.length) (labelFrom [] p) trail (.leaf value) ++ below).map
        (Row.line indent) =
      above.map (Row.line indent) ++ leafLine indent p value trail ::
        below.map (Row.line indent) := by
  simp [rows, Row.line, leafLine]

/-- A leaf stands on one line, and the other lines do not depend on it. -/
theorem hasLine_setAt (ht : t.Writable) (indent : Int) {p : Address} {old : Scalar}
    (h : t.at? p = some (.leaf old)) :
    ∃ above below trail, IsTrail trail ∧
      (Indents indent t → HasLine indent t above (leafLine indent.toNat p old trail) below) ∧
      ∀ new : Scalar, new.Writable → Indents indent (t.setAt p (.leaf new)) →
        HasLine indent (t.setAt p (.leaf new)) above (leafLine indent.toNat p new trail) below := by
  obtain ⟨above, below, trail, htrail, hrows, hset⟩ := rows_setAt h 0 [] (.inl rfl)
  refine ⟨above.map (Row.line indent.toNat), below.map (Row.line indent.toNat), trail, htrail,
    fun hindents => ?_, fun new hnew hindents => ?_⟩
  · obtain ⟨document, hwrite, hlines⟩ := exists_lines ht hindents
    rw [hrows, map_line_leaf] at hlines
    exact ⟨document, hwrite, hlines⟩
  · have hleaf : (Tree.leaf new).Writable := hnew
    obtain ⟨document, hwrite, hlines⟩ := exists_lines (Tree.Every.setAt ht p hleaf) hindents
    rw [hset, map_line_leaf] at hlines
    exact ⟨document, hwrite, hlines⟩

/-- The rows of a tree without their indents are told from the lines without indents. -/
theorem indented_rows (indent : Nat) (t : Tree) :
    indented indent ((rows 0 [] [] t).map Row.text) = (rows 0 [] [] t).map (Row.line indent) := by
  have hnesting := nesting_rows 0 (.inl rfl) (.inl rfl) t []
  rw [List.append_nil, nesting, List.append_nil] at hnesting
  rw [indented, hnesting, List.zipWith_map]
  simp [Row.line]

theorem map_dropWhile_lines (indent : Nat) (t : Tree) :
    ((rows 0 [] [] t).map (Row.line indent)).map (·.dropWhile (· = 0x20)) =
      (rows 0 [] [] t).map Row.text := by
  rw [List.map_map]
  exact List.map_congr_left fun row hrow =>
    dropWhile_line (visible_rows 0 (.inl rfl) (.inl rfl) t row hrow) indent

theorem map_line_zero (rows : List Row) : rows.map (Row.line 0) = rows.map Row.text := by
  refine List.map_congr_left fun row _ => ?_
  simp [Row.line, margin]

theorem document_of_nonpos {document plain : Text} (hindent : indent ≤ 0)
    (h : write indent t = .ok document) (hplain : write 0 t = .ok plain) : document = plain := by
  rw [document_eq_joined h, document_eq_joined hplain, Int.toNat_of_nonpos hindent]
  rfl

/-- Whether a document is another one with an indent: its lines are the lines of that behind the
spaces that their brackets ask for. A negative indent asks for none. -/
structure IndentedFrom (indent : Int) (plain document : Text) : Prop where
  lines : Text.splitOn Newline.lineFeed document =
    indented indent.toNat (Text.splitOn Newline.lineFeed plain)
  unindented : (Text.splitOn Newline.lineFeed document).map (·.dropWhile (· = 0x20)) =
    Text.splitOn Newline.lineFeed plain
  negative : indent < 0 → document = plain

/-- What the documents of a tree have in common, whatever the indent: the document without indent is
`plain`. -/
structure LineByLine (t : Tree) (plain : Text) : Prop where
  /-- One line depends on a leaf, and on nothing else that can be in its place. -/
  leaf : ∀ indent p old, t.at? p = some (.leaf old) → ∃ above below trail, IsTrail trail ∧
    (Indents indent t → HasLine indent t above (leafLine indent.toNat p old trail) below) ∧
    ∀ new : Scalar, new.Writable → Indents indent (t.setAt p (.leaf new)) →
      HasLine indent (t.setAt p (.leaf new)) above (leafLine indent.toNat p new trail) below
  zero : write 0 t = .ok plain
  written : ∀ indent, Indents indent t →
    ∃ document, write indent t = .ok document ∧ IndentedFrom indent plain document
  refused : ∀ indent, ¬ Indents indent t →
    ∃ e, indentError? indent = some e ∧ write indent t = .error e

/-- A tree with finite numbers is written line by line: another leaf changes its own line, another
indent the spaces in front. Only an indent that counts no spaces is refused. -/
theorem write_lines (ht : t.Writable) : ∃ plain, LineByLine t plain := by
  have hzero : Indents 0 t := .inl rfl
  obtain ⟨plain, hplain, hlines⟩ := exists_lines ht hzero
  rw [Int.toNat_zero, map_line_zero] at hlines
  refine ⟨plain, fun indent p old => hasLine_setAt ht indent, hplain, fun indent hindents => ?_,
    fun indent => write_of_not_indents⟩
  obtain ⟨document, hwrite, hindented⟩ := exists_lines ht hindents
  refine ⟨document, hwrite, ?_, ?_, fun hneg => document_of_nonpos hneg.le hwrite hplain⟩
  · rw [hindented, hlines, indented_rows]
  · rw [hindented, hlines, map_dropWhile_lines]

/-- Names and leaves with a line feed and a space in front, and an empty container. -/
def nestedTree : Tree :=
  .keyed [([0x0A, 0x61], .seq [.leaf (.int 12), .seq []]), ([0x20], .leaf (.str [0x20, 0x0A]))]

/-- Where the number of `nestedTree` stands. -/
def numberAddress : Address := [.field [0x0A, 0x61], .item 0]

theorem write_lines_nestedTree :
    nestedTree.Writable ∧ nestedTree.at? numberAddress = some (.leaf (.int 12)) ∧
      Scalar.Writable (.str [0xD83D]) ∧
      (∃ above below trail, IsTrail trail ∧
        HasLine 3 nestedTree above (leafLine 3 numberAddress (.int 12) trail) below ∧
        HasLine 3 (nestedTree.setAt numberAddress (.leaf (.str [0xD83D]))) above
          (leafLine 3 numberAddress (.str [0xD83D]) trail) below) ∧
      ∃ plain document, write 0 nestedTree = .ok plain ∧ write 3 nestedTree = .ok document ∧
        Text.splitOn Newline.lineFeed document =
          indented 3 (Text.splitOn Newline.lineFeed plain) := by
  have hnumber : Scalar.Writable (.int 12) :=
    (isTooLong_eq_false_iff 12).mp (isTooLong_of_lt (k := 2) (by decide) (by decide))
  have ht : nestedTree.Writable :=
    ⟨trivial, ⟨trivial, hnumber, ⟨trivial, trivial⟩, trivial⟩, trivial, trivial⟩
  have hat : nestedTree.at? numberAddress = some (.leaf (.int 12)) := rfl
  obtain ⟨plain, h⟩ := write_lines ht
  obtain ⟨above, below, trail, htrail, hold, hnew⟩ := h.leaf 3 numberAddress (.int 12) hat
  obtain ⟨document, hwrite, hindented⟩ := h.written 3 (.inl rfl)
  exact ⟨ht, hat, trivial,
    ⟨above, below, trail, htrail, hold (.inl rfl), hnew (.str [0xD83D]) trivial (.inl rfl)⟩,
    plain, document, h.zero, hwrite, hindented.lines⟩

/-- An empty container has nothing to indent, and yet a far indent is refused. -/
theorem write_emptyContainer_farIndent :
    Tree.Writable (.seq []) ∧ write 0 (.seq []) = .ok [0x5B, 0x5D] ∧
      write (-100000000000000000000) (.seq []) = .error .indentOutOfRange :=
  ⟨⟨trivial, trivial⟩, rfl, rfl⟩

end FluentFixtures.Json
