import FluentFixtures.Tree.Lines
import Mathlib.Tactic.Common

/-!
# Cutting lines again

The pieces between line feeds have no line feed, so a line has one at its end at
most. Cutting a line once more gives the line, or nothing if it is blank and
blank lines are left out: `lines_flatMap_cutAgain`.
-/

namespace FluentFixtures.Text

theorem not_mem_of_mem_splitOn {separator : CodePoint} {t piece : Text}
    (h : piece ∈ splitOn separator t) : separator ∉ piece := by
  induction t generalizing piece with
  | nil => simp_all [splitOn]
  | cons c rest ih =>
    rw [splitOn] at h
    split at h
    · rcases List.mem_cons.mp h with rfl | h
      · exact List.not_mem_nil
      · exact ih h
    · next hc =>
      split at h
      · next hrest => exact absurd hrest (splitOn_ne_nil separator rest)
      · next first pieces hrest =>
        rcases List.mem_cons.mp h with rfl | h
        · have hfirst := ih (by rw [hrest]; exact List.mem_cons_self)
          simp only [List.mem_cons, not_or]
          exact ⟨fun e => hc e.symm, hfirst⟩
        · exact ih (by rw [hrest]; exact List.mem_cons_of_mem _ h)

theorem splitOn_append {separator : CodePoint} {piece : Text} (h : separator ∉ piece)
    (rest : Text) :
    splitOn separator (piece ++ separator :: rest) = piece :: splitOn separator rest := by
  induction piece with
  | nil => simp [splitOn]
  | cons c more ih =>
    simp only [List.mem_cons, not_or] at h
    rw [List.cons_append, splitOn, if_neg (fun e => h.1 e.symm), ih h.2]

theorem splitOn_of_not_mem {separator : CodePoint} {t : Text} (h : separator ∉ t) :
    splitOn separator t = [t] := by
  induction t with
  | nil => rfl
  | cons c rest ih =>
    simp only [List.mem_cons, not_or] at h
    rw [splitOn, if_neg (fun e => h.1 e.symm), ih h.2]

theorem splitOn_append_cons (separator : CodePoint) (s t : Text) :
    splitOn separator (s ++ separator :: t) = splitOn separator s ++ splitOn separator t := by
  induction s with
  | nil => simp [splitOn]
  | cons c rest ih =>
    rw [List.cons_append, splitOn, splitOn, ih]
    split
    · rfl
    · cases hrest : splitOn separator rest with
      | nil => exact absurd hrest (splitOn_ne_nil separator rest)
      | cons piece pieces => rfl

theorem splitOn_append_of_not_mem {separator : CodePoint} {s : Text} (h : separator ∉ s)
    (t : Text) : ∃ piece pieces, splitOn separator t = piece :: pieces ∧
      splitOn separator (s ++ t) = (s ++ piece) :: pieces := by
  obtain ⟨piece, pieces, hcut⟩ := List.exists_cons_of_ne_nil (splitOn_ne_nil separator t)
  refine ⟨piece, pieces, hcut, ?_⟩
  induction s with
  | nil => exact hcut
  | cons c rest ih =>
    simp only [List.mem_cons, not_or] at h
    rw [List.cons_append, splitOn, if_neg (Ne.symm h.1), ih h.2]
    rfl

/-- The lines of a line, which stays as it is if it holds no line feed. -/
def cutAgain (keepBlank : Bool) (line : Text) : List Text :=
  if line.contains Newline.lineFeed then lines line keepBlank else [line]

theorem cutAgain_of_not_mem {line : Text} (h : Newline.lineFeed ∉ line) (keepBlank : Bool) :
    cutAgain keepBlank line = [line] := by
  simp [cutAgain, h]

theorem cutAgain_line {piece : Text} (h : Newline.lineFeed ∉ piece) (keepBlank : Bool) :
    cutAgain keepBlank (piece ++ [Newline.lineFeed]) =
      if piece.isEmpty && !keepBlank then [] else [piece ++ [Newline.lineFeed]] := by
  have hcontains : (piece ++ [Newline.lineFeed]).contains Newline.lineFeed = true := by simp
  rw [cutAgain, if_pos hcontains, lines, splitOn_append h]
  rfl

theorem linesOf_cons (keepBlank : Bool) (piece : Text) {rest : List Text} (h : rest ≠ []) :
    linesOf keepBlank (piece :: rest) =
      (if piece.isEmpty && !keepBlank then [] else [piece ++ [Newline.lineFeed]]) ++
        linesOf keepBlank rest := by
  cases rest with
  | nil => exact absurd rfl h
  | cons next rest =>
    rw [linesOf]
    split <;> rfl
    simp

theorem linesOf_flatMap_cutAgain (a b : Bool) {pieces : List Text}
    (h : ∀ piece ∈ pieces, Newline.lineFeed ∉ piece) :
    (linesOf a pieces).flatMap (cutAgain b) = linesOf (a && b) pieces := by
  fun_induction linesOf a pieces with
  | case1 => rfl
  | case2 last hempty => simp [linesOf, hempty]
  | case3 last hempty =>
    have hlast := h last List.mem_cons_self
    simp [linesOf, hempty, cutAgain_of_not_mem hlast]
  | case4 piece rest hrest hdrop ih =>
    have hpieces := ih fun p hp => h p (List.mem_cons_of_mem _ hp)
    rw [linesOf_cons _ _ hrest, ← hpieces]
    simp_all
  | case5 piece rest hrest hkeep ih =>
    have hpiece := h piece List.mem_cons_self
    have hpieces := ih fun p hp => h p (List.mem_cons_of_mem _ hp)
    rw [linesOf_cons _ _ hrest, List.flatMap_cons, cutAgain_line hpiece, hpieces]
    cases a <;> simp_all

/-- Cutting all lines again is cutting the text once, blank lines staying if both times keep
them. -/
theorem lines_flatMap_cutAgain (a b : Bool) (t : Text) :
    (lines t a).flatMap (cutAgain b) = lines t (a && b) :=
  linesOf_flatMap_cutAgain a b fun _ hpiece => not_mem_of_mem_splitOn hpiece

/-! ## Lines are parts of the text -/

theorem joinWith_cons (separator piece : Text) {rest : List Text} (h : rest ≠ []) :
    joinWith separator (piece :: rest) = piece ++ separator ++ joinWith separator rest := by
  cases rest with
  | nil => exact absurd rfl h
  | cons next rest => rfl

theorem prefix_joinWith (separator piece : Text) (rest : List Text) :
    piece <+: joinWith separator (piece :: rest) := by
  cases rest with
  | nil => exact List.prefix_rfl
  | cons next more =>
    rw [joinWith_cons _ _ (List.cons_ne_nil next more), List.append_assoc]
    exact List.prefix_append _ _

theorem joinWith_append (separator : Text) {pieces more : List Text} (hpieces : pieces ≠ [])
    (hmore : more ≠ []) : joinWith separator (pieces ++ more) =
      joinWith separator pieces ++ separator ++ joinWith separator more := by
  induction pieces with
  | nil => exact absurd rfl hpieces
  | cons piece rest ih =>
    cases rest with
    | nil => exact joinWith_cons separator piece hmore
    | cons next rest =>
      have hrest := ih (List.cons_ne_nil next rest)
      have hne : next :: rest ++ more ≠ [] := List.cons_ne_nil next (rest ++ more)
      rw [List.cons_append, joinWith_cons _ _ hne, hrest,
        joinWith_cons _ _ (List.cons_ne_nil next rest)]
      simp only [List.append_assoc]

theorem joinWith_concat (separator piece : Text) {pieces : List Text} (h : pieces ≠ []) :
    joinWith separator (pieces ++ [piece]) = joinWith separator pieces ++ separator ++ piece :=
  joinWith_append separator h (List.cons_ne_nil piece [])

theorem joinWith_splitOn (separator : CodePoint) (t : Text) :
    joinWith [separator] (splitOn separator t) = t := by
  induction t with
  | nil => rfl
  | cons c rest ih =>
    rw [splitOn]
    split
    · next hc =>
      rw [joinWith_cons _ _ (splitOn_ne_nil separator rest), ih, hc]
      rfl
    · cases hrest : splitOn separator rest with
      | nil => exact absurd hrest (splitOn_ne_nil separator rest)
      | cons piece pieces =>
        rw [hrest] at ih
        cases pieces with
        | nil => exact congrArg (c :: ·) ih
        | cons next more => exact congrArg (c :: ·) ih

theorem splitOn_joinWith {separator : CodePoint} {pieces : List Text} (hne : pieces ≠ [])
    (h : ∀ piece ∈ pieces, separator ∉ piece) :
    splitOn separator (joinWith [separator] pieces) = pieces := by
  induction pieces with
  | nil => exact absurd rfl hne
  | cons piece rest ih =>
    obtain ⟨hpiece, hrest⟩ := List.forall_mem_cons.mp h
    cases rest with
    | nil => exact splitOn_of_not_mem hpiece
    | cons next more =>
      have hmore := List.cons_ne_nil next more
      rw [joinWith_cons _ _ hmore, List.append_assoc, List.singleton_append,
        splitOn_append hpiece, ih hmore hrest]

theorem mem_joinWith {separator : Text} {pieces : List Text} {c : CodePoint}
    (h : c ∈ joinWith separator pieces) : c ∈ separator ∨ ∃ piece ∈ pieces, c ∈ piece := by
  induction pieces with
  | nil => cases h
  | cons piece rest ih =>
    cases rest with
    | nil => exact .inr ⟨piece, List.mem_cons_self, h⟩
    | cons next more =>
      rw [joinWith_cons _ _ (List.cons_ne_nil next more), List.mem_append, List.mem_append] at h
      rcases h with (hpiece | hseparator) | hmore
      · exact .inr ⟨piece, List.mem_cons_self, hpiece⟩
      · exact .inl hseparator
      · exact (ih hmore).imp_right fun ⟨found, hfound, hc⟩ =>
          ⟨found, List.mem_cons_of_mem piece hfound, hc⟩

theorem mem_joinWith_of_mem {separator piece : Text} {pieces : List Text} {c : CodePoint}
    (hpiece : piece ∈ pieces) (h : c ∈ piece) : c ∈ joinWith separator pieces := by
  induction pieces with
  | nil => cases hpiece
  | cons first rest ih =>
    cases rest with
    | nil =>
      obtain rfl := List.mem_singleton.mp hpiece
      exact h
    | cons next more =>
      rw [joinWith_cons _ _ (List.cons_ne_nil next more), List.mem_append, List.mem_append]
      rcases List.mem_cons.mp hpiece with rfl | hpiece
      · exact .inl (.inl h)
      · exact .inr (ih hpiece)

theorem infix_of_mem_linesOf {keepBlank : Bool} {pieces : List Text} {line : Text}
    (h : line ∈ linesOf keepBlank pieces) : line <:+: joinWith [Newline.lineFeed] pieces := by
  induction pieces with
  | nil => cases h
  | cons piece rest ih =>
    cases rest with
    | nil =>
      rw [linesOf] at h
      split at h
      · cases h
      · rw [List.mem_singleton.mp h]
        exact List.infix_rfl
    | cons next more =>
      rw [linesOf_cons _ _ (List.cons_ne_nil next more)] at h
      rw [joinWith_cons _ _ (List.cons_ne_nil next more)]
      rcases List.mem_append.mp h with hpiece | hmore
      · split at hpiece
        · cases hpiece
        · rw [List.mem_singleton.mp hpiece]
          exact (List.prefix_append _ _).isInfix
      · exact (ih hmore).trans (List.suffix_append _ _).isInfix

theorem infix_of_mem_lines {keepBlank : Bool} {t line : Text} (h : line ∈ lines t keepBlank) :
    line <:+: t := by
  have hline := infix_of_mem_linesOf h
  rwa [joinWith_splitOn] at hline

end FluentFixtures.Text
