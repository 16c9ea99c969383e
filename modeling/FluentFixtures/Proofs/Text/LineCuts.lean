import FluentFixtures.Proofs.Text.BlankLines

/-!
# The one cut of a text into lines

Pieces that hold a line feed at their end only, and miss it in the last piece at
most, are the lines of what they make up: `lines_flatten`. So a text is cut into
lines in one way, blank ones kept or left out, and leaving them out drops them
from the cut: `makesUp_iff_lines`.
-/

namespace FluentFixtures.Text

theorem lines_append {piece : Text} (h : Newline.lineFeed ∉ piece) (rest : Text)
    (keepBlank : Bool) :
    lines (piece ++ Newline.lineFeed :: rest) keepBlank =
      (if piece.isEmpty && !keepBlank then [] else [piece ++ [Newline.lineFeed]]) ++
        lines rest keepBlank := by
  rw [lines, splitOn_append h, linesOf_cons _ _ (splitOn_ne_nil _ _), lines]

theorem lines_of_not_mem {t : Text} (h : Newline.lineFeed ∉ t) (hne : t ≠ []) (keepBlank : Bool) :
    lines t keepBlank = [t] := by
  rw [lines, splitOn_of_not_mem h, linesOf, if_neg]
  simpa using hne

/-- Pieces with a line feed at their end only, which the last may miss, are the lines of the text
that they make up. -/
theorem lines_flatten {pieces : List Text} (hne : ∀ piece ∈ pieces, piece ≠ [])
    (hlast : ∀ piece ∈ pieces, Newline.lineFeed ∉ piece.dropLast)
    (hends : ∀ piece ∈ pieces.dropLast, piece.getLast? = some Newline.lineFeed) :
    lines pieces.flatten true = pieces := by
  induction pieces with
  | nil => rfl
  | cons piece rest ih =>
    obtain ⟨hpiece, hrestNe⟩ := List.forall_mem_cons.mp hne
    obtain ⟨hfeed, hrestLast⟩ := List.forall_mem_cons.mp hlast
    by_cases hend : piece.getLast? = some Newline.lineFeed
    · obtain ⟨body, rfl⟩ := List.getLast?_eq_some_iff.mp hend
      rw [List.dropLast_concat] at hfeed
      have hrestEnds : ∀ next ∈ rest.dropLast, next.getLast? = some Newline.lineFeed := by
        cases rest with
        | nil => exact fun _ h => nomatch h
        | cons next more => exact (List.forall_mem_cons.mp hends).2
      rw [List.flatten_cons, List.append_assoc, List.singleton_append, lines_append hfeed,
        ih hrestNe hrestLast hrestEnds]
      simp
    · -- Only the last piece misses its line feed.
      cases rest with
      | cons next more => exact absurd (hends piece List.mem_cons_self) hend
      | nil =>
        have hnone : Newline.lineFeed ∉ piece := by
          rw [← List.dropLast_concat_getLast hpiece, List.mem_append, not_or]
          refine ⟨hfeed, fun hmem => hend ?_⟩
          rw [List.getLast?_eq_some_getLast hpiece, List.mem_singleton.mp hmem]
        rw [List.flatten_singleton, lines_of_not_mem hnone hpiece]

theorem linesOf_false {pieces : List Text} (h : ∀ piece ∈ pieces, Newline.lineFeed ∉ piece) :
    linesOf false pieces = (linesOf true pieces).filter (· ≠ [Newline.lineFeed]) := by
  induction pieces with
  | nil => rfl
  | cons piece rest ih =>
    obtain ⟨hpiece, hrest⟩ := List.forall_mem_cons.mp h
    cases rest with
    | nil =>
      rw [linesOf, linesOf]
      split
      · rfl
      · have hfeed : piece ≠ [Newline.lineFeed] := by
          rintro rfl
          exact hpiece List.mem_cons_self
        simp [hfeed]
    | cons next more =>
      have hne := List.cons_ne_nil next more
      rw [linesOf_cons _ _ hne, linesOf_cons _ _ hne, List.filter_append, ih hrest]
      cases piece <;> simp

theorem lines_false (t : Text) :
    lines t false = (lines t true).filter (· ≠ [Newline.lineFeed]) :=
  linesOf_false fun _ => not_mem_of_mem_splitOn

/-- Only its lines make up a text, with or without the blank ones; the latter are the former but
for each line feed that is a line of its own. -/
theorem makesUp_iff_lines (t : Text) :
    (∀ keepBlank pieces, MakesUp keepBlank t pieces ↔ pieces = lines t keepBlank) ∧
      lines t false = (lines t true).filter (· ≠ [Newline.lineFeed]) := by
  refine ⟨fun keepBlank pieces => ?_, lines_false t⟩
  constructor
  · intro h
    have hlines := makesUp_lines keepBlank t
    calc pieces = lines pieces.flatten true := (lines_flatten h.nonempty h.feedLast h.feedEnds).symm
      _ = lines (lines t keepBlank).flatten true := by rw [h.text, hlines.text]
      _ = lines t keepBlank := lines_flatten hlines.nonempty hlines.feedLast hlines.feedEnds
  · rintro rfl
    exact makesUp_lines keepBlank t

example : lines "\na\n\nb" true = (["\n", "a\n", "\n", "b"] : List String).map ofString := by
  decide

end FluentFixtures.Text
