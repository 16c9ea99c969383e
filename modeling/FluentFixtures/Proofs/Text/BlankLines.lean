import FluentFixtures.Proofs.Text.Lines

/-!
# What the lines of a text make up

The lines of a text make up the text, and without the blank ones the text without
its blank lines: `MakesUp`, `makesUp_lines`. A line holds a line feed at its end
and nowhere else, and only the last one may have none.
-/

namespace FluentFixtures.Text

/-- The text without every line feed that follows another one; `afterFeed` says whether one stands
before it. -/
def dropBlankFrom (afterFeed : Bool) : Text → Text
  | [] => []
  | c :: rest =>
    if c = Newline.lineFeed then
      if afterFeed then dropBlankFrom true rest else c :: dropBlankFrom true rest
    else c :: dropBlankFrom false rest

/-- The text without its blank lines: no line feed stands first or follows another one. -/
def withoutBlank (t : Text) : Text := dropBlankFrom true t

/-- Whether these are the lines of a text, blank ones kept or left out. -/
structure MakesUp (keepBlank : Bool) (t : Text) (lines : List Text) : Prop where
  text : lines.flatten = if keepBlank then t else t.withoutBlank
  nonempty : ∀ line ∈ lines, line ≠ []
  feedLast : ∀ line ∈ lines, Newline.lineFeed ∉ line.dropLast
  feedEnds : ∀ line ∈ lines.dropLast, line.getLast? = some Newline.lineFeed
  notBlank : keepBlank = false → [Newline.lineFeed] ∉ lines

theorem dropBlankFrom_append {piece : Text} (hpiece : Newline.lineFeed ∉ piece)
    (hne : piece ≠ []) (afterFeed : Bool) (rest : Text) :
    dropBlankFrom afterFeed (piece ++ rest) = piece ++ dropBlankFrom false rest := by
  induction piece generalizing afterFeed with
  | nil => exact absurd rfl hne
  | cons c more ih =>
    simp only [List.mem_cons, not_or] at hpiece
    rw [List.cons_append, dropBlankFrom, if_neg (Ne.symm hpiece.1)]
    cases more with
    | nil => rfl
    | cons d more => rw [ih hpiece.2 (List.cons_ne_nil d more)]; rfl

theorem dropBlankFrom_of_not_mem {piece : Text} (hpiece : Newline.lineFeed ∉ piece)
    (afterFeed : Bool) : dropBlankFrom afterFeed piece = piece := by
  cases piece with
  | nil => rfl
  | cons c more =>
    have happend := dropBlankFrom_append hpiece (List.cons_ne_nil c more) afterFeed []
    simpa [dropBlankFrom] using happend

theorem flatten_linesOf (keepBlank : Bool) {pieces : List Text} (hne : pieces ≠ [])
    (h : ∀ piece ∈ pieces, Newline.lineFeed ∉ piece) :
    (linesOf keepBlank pieces).flatten =
      if keepBlank then joinWith [Newline.lineFeed] pieces
      else withoutBlank (joinWith [Newline.lineFeed] pieces) := by
  induction pieces with
  | nil => exact absurd rfl hne
  | cons piece rest ih =>
    have hpiece := h piece List.mem_cons_self
    cases rest with
    | nil =>
      rw [joinWith, withoutBlank, dropBlankFrom_of_not_mem hpiece, ite_self, linesOf]
      cases piece <;> simp
    | cons next more =>
      have hrest := ih (List.cons_ne_nil next more) fun p hp => h p (List.mem_cons_of_mem _ hp)
      rw [linesOf_cons _ _ (List.cons_ne_nil next more), List.flatten_append, hrest,
        joinWith_cons _ _ (List.cons_ne_nil next more)]
      cases keepBlank with
      | true => simp
      | false =>
        cases piece with
        | nil => simp [withoutBlank, dropBlankFrom]
        | cons c more =>
          simp only [withoutBlank, Bool.false_eq_true, if_false, List.append_assoc,
            dropBlankFrom_append hpiece (List.cons_ne_nil c more)]
          simp [dropBlankFrom]

theorem mem_linesOf {keepBlank : Bool} {pieces : List Text}
    (h : ∀ piece ∈ pieces, Newline.lineFeed ∉ piece) {line : Text}
    (hline : line ∈ linesOf keepBlank pieces) :
    line ≠ [] ∧ Newline.lineFeed ∉ line.dropLast ∧
      (keepBlank = false → line ≠ [Newline.lineFeed]) := by
  induction pieces with
  | nil => cases hline
  | cons piece rest ih =>
    have hpiece := h piece List.mem_cons_self
    cases rest with
    | nil =>
      rw [linesOf] at hline
      split at hline
      · cases hline
      · next hne =>
        obtain rfl := List.mem_singleton.mp hline
        refine ⟨by simpa using hne, fun hmem => hpiece (List.dropLast_subset _ hmem), ?_⟩
        rintro - rfl
        exact hpiece List.mem_cons_self
    | cons next more =>
      rw [linesOf_cons _ _ (List.cons_ne_nil next more)] at hline
      rcases List.mem_append.mp hline with hfirst | hmore
      · split at hfirst
        · cases hfirst
        · next hkept =>
          obtain rfl := List.mem_singleton.mp hfirst
          refine ⟨by simp, by simpa using hpiece, ?_⟩
          rintro rfl hblank
          have hempty : piece = [] := by simpa using hblank
          simp [hempty] at hkept
      · exact ih (fun p hp => h p (List.mem_cons_of_mem _ hp)) hmore

theorem getLast?_of_mem_dropLast_linesOf {keepBlank : Bool} {pieces : List Text} {line : Text}
    (hline : line ∈ (linesOf keepBlank pieces).dropLast) :
    line.getLast? = some Newline.lineFeed := by
  induction pieces with
  | nil => cases hline
  | cons piece rest ih =>
    cases rest with
    | nil =>
      rw [linesOf] at hline
      split at hline <;> cases hline
    | cons next more =>
      rw [linesOf_cons _ _ (List.cons_ne_nil next more)] at hline
      split at hline
      · exact ih hline
      · by_cases hlast : linesOf keepBlank (next :: more) = []
        · rw [hlast] at hline
          cases hline
        · rw [List.singleton_append, List.dropLast_cons_of_ne_nil hlast] at hline
          rcases List.mem_cons.mp hline with rfl | hmore
          · simp
          · exact ih hmore

theorem makesUp_lines (keepBlank : Bool) (t : Text) : MakesUp keepBlank t (lines t keepBlank) := by
  have hpieces : ∀ piece ∈ splitOn Newline.lineFeed t, Newline.lineFeed ∉ piece :=
    fun _ => not_mem_of_mem_splitOn
  have hline {line : Text} (h : line ∈ lines t keepBlank) := mem_linesOf hpieces h
  constructor
  case text =>
    rw [lines, flatten_linesOf keepBlank (splitOn_ne_nil _ _) hpieces, joinWith_splitOn]
  case nonempty => exact fun _ h => (hline h).1
  case feedLast => exact fun _ h => (hline h).2.1
  case feedEnds => exact fun _ h => getLast?_of_mem_dropLast_linesOf h
  case notBlank => exact fun hkeep h => (hline h).2.2 hkeep rfl

end FluentFixtures.Text
