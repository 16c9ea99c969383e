import FluentFixtures.Proofs.Json.Control
import FluentFixtures.Proofs.Json.RoundTrip
import FluentFixtures.Proofs.Text.Lines

/-!
# The lines of a document

`rows` lists what the lines of a document show, each with the number of containers
that it is inside. The lines are these rows behind indents of their depths:
`lines_of_write`. A row has no control character, so a document has none but the
line feeds between its lines, and no row starts with a space, so the indent of a
line can be told from what it shows.
-/

namespace FluentFixtures

/-- Whether a text has no control characters but line feeds. -/
def Text.OnlyLineFeeds (t : Text) : Prop := ∀ c ∈ t, 0x20 ≤ c.val ∨ c = Newline.lineFeed

theorem Text.OnlyLineFeeds.not_mem_carriageReturn {t : Text} (h : t.OnlyLineFeeds) :
    Newline.carriageReturn ∉ t := by
  intro hmem
  rcases h _ hmem with h | h
  · exact absurd h (by decide)
  · exact absurd h (by decide)

namespace Json

open Text (NoControl Visible)

/-- A line of a document: the number of containers it is inside, and what it shows. -/
structure Row where
  depth : Nat
  text : Text
  deriving DecidableEq, Repr

/-- The spaces in front of a line inside `depth` containers. -/
def margin (indent depth : Nat) : Text := List.replicate (indent * depth) 0x20

def Row.line (indent : Nat) (row : Row) : Text := margin indent row.depth ++ row.text

def leafText (value : Scalar) : Text := Surrogate.escape (scalarText value)

def label (name : Text) : Text := Surrogate.escape (quote name) ++ [0x3A, 0x20]

/-- What may stand before a tree on its first line: nothing, or the name of a field. -/
def IsLead (t : Text) : Prop := t = [] ∨ ∃ name, t = label name

/-- What may stand after a tree on its last line: nothing, or a comma. -/
def IsTrail (t : Text) : Prop := t = [] ∨ t = [0x2C]

/-- What stands after a part of a container that others follow. -/
def comma {α : Type} : List α → Text
  | [] => []
  | _ :: _ => [0x2C]

/-- The rows of a container around the rows of its parts; an empty one stays on one line. -/
def enclose (depth : Nat) (before after : Text) (opening closing : CodePoint) :
    List Row → List Row
  | [] => [⟨depth, before ++ [opening, closing] ++ after⟩]
  | row :: rows =>
    ⟨depth, before ++ [opening]⟩ :: (row :: rows ++ [⟨depth, closing :: after⟩])

mutual

/-- The rows of a tree inside `depth` containers, with what stands before it on its first line and
after it on its last. -/
def rows (depth : Nat) (before after : Text) : Tree → List Row
  | .leaf value => [⟨depth, before ++ leafText value ++ after⟩]
  | .seq items => enclose depth before after 0x5B 0x5D (itemRows (depth + 1) items)
  | .keyed fields => enclose depth before after 0x7B 0x7D (fieldRows (depth + 1) fields)

def itemRows (depth : Nat) : List Tree → List Row
  | [] => []
  | t :: rest => rows depth [] (comma rest) t ++ itemRows depth rest

def fieldRows (depth : Nat) : List (Text × Tree) → List Row
  | [] => []
  | (name, t) :: rest => rows depth (label name) (comma rest) t ++ fieldRows depth rest

end

/-! ## Rows joined -/

variable {indent : Nat}

/-- The rows on lines of their own. -/
def joined (indent : Nat) (rows : List Row) : Text :=
  Text.joinWith [Newline.lineFeed] (rows.map (Row.line indent))

theorem joined_append {above below : List Row} (habove : above ≠ []) (hbelow : below ≠ []) :
    joined indent (above ++ below) =
      joined indent above ++ Newline.lineFeed :: joined indent below := by
  rw [joined, List.map_append, Text.joinWith_append _ (by simpa using habove)
    (by simpa using hbelow), List.append_assoc]
  rfl

theorem enclose_ne_nil (depth : Nat) (before after : Text) (opening closing : CodePoint)
    (inner : List Row) : enclose depth before after opening closing inner ≠ [] := by
  cases inner <;> exact List.cons_ne_nil _ _

theorem enclose_of_ne_nil (depth : Nat) (before after : Text) (opening closing : CodePoint)
    {inner : List Row} (h : inner ≠ []) :
    enclose depth before after opening closing inner =
      ⟨depth, before ++ [opening]⟩ :: (inner ++ [⟨depth, closing :: after⟩]) := by
  cases inner with
  | nil => exact absurd rfl h
  | cons row rows => rfl

theorem joined_enclose (depth : Nat) (before after : Text) (opening closing : CodePoint)
    {inner : List Row} (h : inner ≠ []) :
    joined indent (enclose depth before after opening closing inner) =
      margin indent depth ++ before ++ opening :: (Newline.lineFeed :: joined indent inner ++
        newline indent depth ++ closing :: after) := by
  have hlast : [(⟨depth, closing :: after⟩ : Row)] ≠ [] := List.cons_ne_nil _ _
  have hrest : inner ++ [⟨depth, closing :: after⟩] ≠ [] := List.append_ne_nil_of_left_ne_nil h _
  rw [enclose_of_ne_nil _ _ _ _ _ h, ← List.singleton_append,
    joined_append (List.cons_ne_nil _ _) hrest, joined_append h hlast]
  simp [joined, Text.joinWith, Row.line, newline, margin, Newline.lineFeed]

theorem rows_ne_nil (depth : Nat) (before after : Text) (t : Tree) :
    rows depth before after t ≠ [] := by
  cases t with
  | leaf value => exact List.cons_ne_nil _ _
  | seq items => exact enclose_ne_nil _ _ _ _ _ _
  | keyed fields => exact enclose_ne_nil _ _ _ _ _ _

theorem itemRows_ne_nil (depth : Nat) {items : List Tree} (h : items ≠ []) :
    itemRows depth items ≠ [] := by
  cases items with
  | nil => exact absurd rfl h
  | cons t rest => exact List.append_ne_nil_of_left_ne_nil (rows_ne_nil _ _ _ t) _

theorem fieldRows_ne_nil (depth : Nat) {fields : Fields} (h : fields ≠ []) :
    fieldRows depth fields ≠ [] := by
  cases fields with
  | nil => exact absurd rfl h
  | cons field rest => exact List.append_ne_nil_of_left_ne_nil (rows_ne_nil _ _ _ field.2) _

theorem newline_eq (indent depth : Nat) :
    newline indent depth = Newline.lineFeed :: margin indent depth := rfl

theorem joined_singleton (row : Row) : joined indent [row] = row.line indent := rfl

mutual

/-- The rows of a tree are the lines of its text. -/
theorem joined_rows (indent depth : Nat) (before after : Text) :
    ∀ t, joined indent (rows depth before after t) =
      margin indent depth ++ before ++ Surrogate.escape (render indent depth t) ++ after
  | .leaf value => by
    rw [rows, joined_singleton]
    simp only [Row.line, leafText, render, List.append_assoc]
  | .seq [] => by
    have hempty : Surrogate.escape (render indent depth (.seq [])) = [0x5B, 0x5D] := rfl
    rw [rows, itemRows, enclose, joined_singleton, hempty]
    simp only [Row.line, List.append_assoc]
  | .seq (t :: items) => by
    have hitems := joined_itemRows indent (depth + 1) (List.cons_ne_nil t items)
    rw [escape_renderItems] at hitems
    rw [rows, joined_enclose _ _ _ _ _ (itemRows_ne_nil _ (List.cons_ne_nil t items)),
      (List.cons.inj hitems).2, escape_render_seq]
    simp
  | .keyed [] => by
    have hempty : Surrogate.escape (render indent depth (.keyed [])) = [0x7B, 0x7D] := rfl
    rw [rows, fieldRows, enclose, joined_singleton, hempty]
    simp only [Row.line, List.append_assoc]
  | .keyed ((name, t) :: fields) => by
    have hfields := joined_fieldRows indent (depth + 1) (List.cons_ne_nil (name, t) fields)
    rw [escape_renderFields] at hfields
    rw [rows, joined_enclose _ _ _ _ _ (fieldRows_ne_nil _ (List.cons_ne_nil (name, t) fields)),
      (List.cons.inj hfields).2, escape_render_keyed]
    simp

theorem joined_itemRows (indent depth : Nat) :
    ∀ {items : List Tree}, items ≠ [] →
      0x2C :: Newline.lineFeed :: joined indent (itemRows depth items) =
        Surrogate.escape (renderItems indent depth items)
  | [], h => absurd rfl h
  | [t], _ => by
    have hnone : Surrogate.escape (renderItems indent depth []) = [] := rfl
    rw [itemRows, itemRows, List.append_nil, joined_rows, escape_renderItems, hnone, newline_eq]
    simp [comma]
  | t :: next :: more, _ => by
    have hmore := List.cons_ne_nil next more
    have hnext := joined_itemRows indent depth hmore
    rw [itemRows, joined_append (rows_ne_nil _ _ _ t) (itemRows_ne_nil _ hmore), joined_rows,
      escape_renderItems, ← hnext, newline_eq]
    simp [comma]

theorem joined_fieldRows (indent depth : Nat) :
    ∀ {fields : List (Text × Tree)}, fields ≠ [] →
      0x2C :: Newline.lineFeed :: joined indent (fieldRows depth fields) =
        Surrogate.escape (renderFields indent depth fields)
  | [], h => absurd rfl h
  | [(name, t)], _ => by
    have hnone : Surrogate.escape (renderFields indent depth []) = [] := rfl
    rw [fieldRows, fieldRows, List.append_nil, joined_rows, escape_renderFields, hnone, newline_eq]
    simp [comma, label]
  | (name, t) :: next :: more, _ => by
    have hmore := List.cons_ne_nil next more
    have hnext := joined_fieldRows indent depth hmore
    rw [fieldRows, joined_append (rows_ne_nil _ _ _ t) (fieldRows_ne_nil _ hmore), joined_rows,
      escape_renderFields, ← hnext, newline_eq]
    simp [comma, label]

end

/-! ## What rows show -/

theorem visible_leafText (value : Scalar) : Visible (leafText value) :=
  (visible_scalarText value).escape

theorem visible_label (name : Text) : Visible (label name) :=
  (visible_quote name).escape.append (by decide)

theorem IsLead.visible {t : Text} (h : IsLead t) : t = [] ∨ t.Visible :=
  h.imp_right fun ⟨name, hname⟩ => hname ▸ visible_label name

theorem IsTrail.noControl {t : Text} (h : IsTrail t) : t.NoControl := by
  rcases h with rfl | rfl
  · exact List.forall_mem_nil _
  · exact List.forall_mem_singleton.mpr (by decide)

theorem isTrail_comma {α : Type} (rest : List α) : IsTrail (comma rest) := by
  cases rest with
  | nil => exact .inl rfl
  | cons next rest => exact .inr rfl

theorem visible_mark {c : CodePoint} (h : 0x20 < c.val) : Visible [c] := by
  refine ⟨List.forall_mem_singleton.mpr h.le, c, [], rfl, ?_⟩
  rintro rfl
  exact absurd h (by decide)

theorem visible_enclose {depth : Nat} {before after : Text} {opening closing : CodePoint}
    (hbefore : IsLead before) (hafter : IsTrail after) (hopening : 0x20 < opening.val)
    (hclosing : 0x20 < closing.val) {inner : List Row} (hinner : ∀ row ∈ inner, row.text.Visible) :
    ∀ row ∈ enclose depth before after opening closing inner, row.text.Visible := by
  have hopen := visible_mark hopening
  have hclose := visible_mark hclosing
  cases inner with
  | nil =>
    refine List.forall_mem_singleton.mpr ?_
    exact (Visible.behind hbefore.visible (hopen.append hclose.noControl)).append hafter.noControl
  | cons row more =>
    rw [enclose, List.forall_mem_cons, List.forall_mem_append, List.forall_mem_singleton]
    exact ⟨Visible.behind hbefore.visible hopen, hinner, hclose.append hafter.noControl⟩

mutual

theorem visible_rows (depth : Nat) {before after : Text} (hbefore : IsLead before)
    (hafter : IsTrail after) : ∀ t, ∀ row ∈ rows depth before after t, row.text.Visible
  | .leaf value => by
    refine List.forall_mem_singleton.mpr ?_
    exact (Visible.behind hbefore.visible (visible_leafText value)).append hafter.noControl
  | .seq items =>
    visible_enclose hbefore hafter (by decide) (by decide) (visible_itemRows (depth + 1) items)
  | .keyed fields =>
    visible_enclose hbefore hafter (by decide) (by decide) (visible_fieldRows (depth + 1) fields)

theorem visible_itemRows (depth : Nat) : ∀ items, ∀ row ∈ itemRows depth items, row.text.Visible
  | [] => List.forall_mem_nil _
  | t :: rest => by
    rw [itemRows, List.forall_mem_append]
    exact ⟨visible_rows depth (.inl rfl) (isTrail_comma rest) t, visible_itemRows depth rest⟩

theorem visible_fieldRows (depth : Nat) :
    ∀ fields : List (Text × Tree), ∀ row ∈ fieldRows depth fields, row.text.Visible
  | [] => List.forall_mem_nil _
  | (name, t) :: rest => by
    rw [fieldRows, List.forall_mem_append]
    exact ⟨visible_rows depth (.inr ⟨name, rfl⟩) (isTrail_comma rest) t,
      visible_fieldRows depth rest⟩

end

/-! ## Lines -/

theorem noControl_margin (indent depth : Nat) : NoControl (margin indent depth) := by
  intro c hc
  rw [List.eq_of_mem_replicate hc]
  decide

/-- The spaces in front of a visible row are its indent. -/
theorem dropWhile_line {row : Row} (h : row.text.Visible) (indent : Nat) :
    (row.line indent).dropWhile (· = 0x20) = row.text := by
  have hmargin : ∀ c ∈ margin indent row.depth, decide (c = 0x20) = true := fun c hc =>
    decide_eq_true (List.eq_of_mem_replicate hc)
  obtain ⟨c, rest, htext, hc⟩ := h.starts
  rw [Row.line, List.dropWhile_append_of_pos hmargin, htext, List.dropWhile_cons_of_neg]
  simpa using hc

variable {indent : Int} {t : Tree} {document : Text}

theorem document_eq_joined (h : write indent t = .ok document) :
    document = joined indent.toNat (rows 0 [] [] t) := by
  obtain ⟨-, rfl⟩ := write_eq_ok_iff.mp h
  rw [joined_rows]
  simp [margin]

/-- The lines of a document are the rows of its tree behind their indents. -/
theorem lines_of_write (h : write indent t = .ok document) :
    Text.splitOn Newline.lineFeed document = (rows 0 [] [] t).map (Row.line indent.toNat) := by
  rw [document_eq_joined h, joined]
  refine Text.splitOn_joinWith (by simpa using rows_ne_nil 0 [] [] t) ?_
  intro line hline hfeed
  obtain ⟨row, hrow, rfl⟩ := List.mem_map.mp hline
  have hvisible := visible_rows 0 (.inl rfl) (.inl rfl) t row hrow
  have hcontrol := (noControl_margin indent.toNat row.depth).append hvisible.noControl
  exact absurd (hcontrol _ hfeed) (by decide)

theorem onlyLineFeeds_of_write (h : write indent t = .ok document) : document.OnlyLineFeeds := by
  intro c hc
  rw [document_eq_joined h] at hc
  rcases Text.mem_joinWith hc with hfeed | ⟨line, hline, hc⟩
  · exact .inr (List.mem_singleton.mp hfeed)
  · obtain ⟨row, hrow, rfl⟩ := List.mem_map.mp hline
    have hvisible := visible_rows 0 (.inl rfl) (.inl rfl) t row hrow
    exact .inl ((noControl_margin indent.toNat row.depth).append hvisible.noControl c hc)

end Json

end FluentFixtures
