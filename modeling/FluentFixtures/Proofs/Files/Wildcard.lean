import FluentFixtures.Proofs.Files.Search
import Mathlib.Data.List.Infix

/-!
# What a pattern accepts

A pattern accepts a name that can be cut into pieces, one for each of its code
points: `accepts_iff_cuts`. One row of answers for the endings of a name holds
that of the whole name and the row of its endings, so the answers are given by
recursion on the name and the pattern.
-/

namespace FluentFixtures.Files

/-- Whether a code point of a pattern stands for a text: a star for any, a question mark for one
code point, and all else for itself. -/
inductive Component.StandsFor : CodePoint → Text → Prop
  | many (piece : Text) : StandsFor star piece
  | one (c : CodePoint) : StandsFor '?' [c]
  | itself {c : CodePoint} (hmany : c ≠ star) (hone : c ≠ '?') : StandsFor c [c]

/-- Whether a name can be cut into pieces that a pattern stands for, in order. -/
def Pattern.Cuts (t name : Text) : Prop :=
  ∃ pieces : List Text, List.Forall₂ Component.StandsFor t pieces ∧ pieces.flatten = name

/-! ## Answers for endings -/

namespace Piece

variable {c : CodePoint} {name : Text} {piece : Piece} {pieces : List Piece}

theorem anyLater_ne_nil {answers : List Bool} (h : answers ≠ []) : anyLater answers ≠ [] := by
  cases answers with
  | nil => exact absurd rfl h
  | cons b answers =>
    unfold anyLater
    split <;> nofun

theorem anyLater_cons (b : Bool) {answers : List Bool} (h : answers ≠ []) :
    anyLater (b :: answers) = (b || (anyLater answers).head? = some true) :: anyLater answers := by
  obtain ⟨later, more, hlater⟩ := List.exists_cons_of_ne_nil (anyLater_ne_nil h)
  rw [anyLater, hlater]
  simp

theorem matchesEndings_ne_nil (name : Text) (pieces : List Piece) :
    matchesEndings name pieces ≠ [] := by
  induction pieces with
  | nil => simp [matchesEndings]
  | cons piece pieces ih =>
    cases piece with
    | many => exact anyLater_ne_nil ih
    | _ => simp [matchesEndings]

theorem matchesEndings_eq_cons (name : Text) (pieces : List Piece) :
    matchesEndings name pieces = matchesName pieces name :: (matchesEndings name pieces).tail := by
  obtain ⟨b, answers, h⟩ := List.exists_cons_of_ne_nil (matchesEndings_ne_nil name pieces)
  rw [matchesName, h]
  cases b <;> rfl

theorem matchesEndings_of_one (h : piece ≠ many) (name : Text) (pieces : List Piece) :
    matchesEndings name (piece :: pieces) =
      List.zipWith (fun c later => piece.accepts c && later) name
        (matchesEndings name pieces).tail ++ [false] := by
  cases piece with
  | many => exact absurd rfl h
  | _ => rfl

theorem tail_matchesEndings (c : CodePoint) (name : Text) (pieces : List Piece) :
    (matchesEndings (c :: name) pieces).tail = matchesEndings name pieces := by
  induction pieces with
  | nil => rfl
  | cons piece pieces ih =>
    have hcons := matchesEndings_eq_cons (c :: name) pieces
    rw [ih] at hcons
    by_cases hmany : piece = many
    · subst hmany
      rw [matchesEndings, hcons, anyLater_cons _ (matchesEndings_ne_nil name pieces)]
      rfl
    · rw [matchesEndings_of_one hmany, matchesEndings_of_one hmany, ih,
        matchesEndings_eq_cons name pieces]
      rfl

theorem tail_matchesEndings_nil (pieces : List Piece) : (matchesEndings [] pieces).tail = [] := by
  induction pieces with
  | nil => rfl
  | cons piece pieces ih =>
    by_cases hmany : piece = many
    · subst hmany
      rw [matchesEndings, matchesEndings_eq_cons, ih]
      rfl
    · rw [matchesEndings_of_one hmany]
      rfl

/-! ## Answers for names -/

theorem matchesName_eq_true_iff :
    matchesName pieces name = true ↔ (matchesEndings name pieces).head? = some true :=
  decide_eq_true_iff

theorem matchesName_nil : matchesName [] name = true ↔ name = [] := by
  cases name <;> simp [matchesName, matchesEndings]

theorem matchesName_cons_of_one (h : piece ≠ many) :
    matchesName (piece :: pieces) name = true ↔
      ∃ c rest, name = c :: rest ∧ piece.accepts c = true ∧ matchesName pieces rest = true := by
  rw [matchesName_eq_true_iff, matchesEndings_of_one h]
  cases name with
  | nil => simp
  | cons c rest =>
    rw [tail_matchesEndings, matchesEndings_eq_cons rest pieces]
    simp

theorem matchesName_cons_many : matchesName (many :: pieces) name = true ↔
    ∃ rest, rest <:+ name ∧ matchesName pieces rest = true := by
  induction name with
  | nil =>
    have hrow := matchesEndings_eq_cons [] pieces
    rw [tail_matchesEndings_nil] at hrow
    rw [matchesName_eq_true_iff, matchesEndings, hrow]
    simp [anyLater]
  | cons c name ih =>
    have hrow := matchesEndings_eq_cons (c :: name) pieces
    rw [tail_matchesEndings] at hrow
    have hlater : (anyLater (matchesEndings name pieces)).head? = some true ↔
        matchesName (many :: pieces) name = true := by
      rw [matchesName_eq_true_iff, matchesEndings]
    rw [matchesName_eq_true_iff, matchesEndings, hrow,
      anyLater_cons _ (matchesEndings_ne_nil name pieces)]
    simp only [List.head?_cons, Option.some.injEq, Bool.or_eq_true, decide_eq_true_eq, hlater, ih,
      List.suffix_cons_iff, or_and_right, exists_or, exists_eq_left]

/-- The piece for a code point outside brackets. -/
def ofPoint (c : CodePoint) : Piece :=
  if c = '*' then many else if c = '?' then one else literal c

theorem ofPoint_ne_many {c : CodePoint} (h : c ≠ Component.star) : ofPoint c ≠ many := by
  have hmany : c ≠ CodePoint.ofChar '*' := h
  rw [ofPoint, if_neg hmany]
  split <;> nofun

/-- What is no star stands for the one code points that its piece takes. -/
theorem standsFor_iff {c : CodePoint} {t : Text} (h : c ≠ Component.star) :
    Component.StandsFor c t ↔ ∃ d, t = [d] ∧ (ofPoint c).accepts d = true := by
  have hmany : c ≠ CodePoint.ofChar '*' := h
  rw [ofPoint, if_neg hmany]
  by_cases hone : c = CodePoint.ofChar '?'
  · rw [if_pos hone]
    constructor
    · rintro (⟨⟩ | ⟨d⟩ | ⟨-, hother⟩)
      · exact absurd rfl h
      · exact ⟨d, rfl, rfl⟩
      · exact absurd hone hother
    · rintro ⟨d, rfl, -⟩
      exact hone ▸ .one d
  · rw [if_neg hone]
    constructor
    · rintro (⟨⟩ | ⟨d⟩ | ⟨-, -⟩)
      · exact absurd rfl h
      · exact absurd rfl hone
      · exact ⟨c, rfl, by simp [accepts]⟩
    · rintro ⟨d, rfl, hd⟩
      obtain rfl : d = c := by simpa [accepts] using hd
      exact .itself h hone

theorem ofText_of_no_bracket {t : Text} (h : CodePoint.ofChar '[' ∉ t) :
    ofText t = t.map ofPoint := by
  induction t with
  | nil => rw [ofText, List.map_nil]
  | cons c t ih =>
    obtain ⟨hc, ht⟩ := not_or.mp (List.mem_cons.not.mp h)
    rw [ofText, List.map_cons, ← ih ht, ofPoint]
    split
    · rfl
    split
    · rfl
    · rw [if_neg (Ne.symm hc)]

end Piece

/-! ## Cutting names -/

namespace Pattern

variable {c : CodePoint} {t name : Text}

theorem cuts_nil : Cuts [] name ↔ name = [] := by
  simp [Cuts, eq_comm]

theorem cuts_cons : Cuts (c :: t) name ↔
    ∃ piece rest, Component.StandsFor c piece ∧ Cuts t rest ∧ name = piece ++ rest := by
  constructor
  · rintro ⟨pieces, hpieces, rfl⟩
    obtain ⟨piece, rest, hpiece, hrest, rfl⟩ := List.forall₂_cons_left_iff.mp hpieces
    exact ⟨piece, rest.flatten, hpiece, ⟨rest, hrest, rfl⟩, rfl⟩
  · rintro ⟨piece, -, hpiece, ⟨rest, hrest, rfl⟩, rfl⟩
    exact ⟨piece :: rest, .cons hpiece hrest, rfl⟩

/-- The answer for a name is whether it can be cut. -/
theorem matchesName_iff_cuts : Piece.matchesName (t.map Piece.ofPoint) name = true ↔ Cuts t name := by
  induction t generalizing name with
  | nil => rw [List.map_nil, Piece.matchesName_nil, cuts_nil]
  | cons c t ih =>
    rw [List.map_cons, cuts_cons]
    by_cases hmany : c = Component.star
    · subst hmany
      rw [show Piece.ofPoint Component.star = .many from rfl, Piece.matchesName_cons_many]
      constructor
      · rintro ⟨rest, ⟨piece, rfl⟩, hrest⟩
        exact ⟨piece, rest, .many piece, ih.mp hrest, rfl⟩
      · rintro ⟨piece, rest, -, hrest, rfl⟩
        exact ⟨rest, List.suffix_append piece rest, ih.mpr hrest⟩
    · rw [Piece.matchesName_cons_of_one (Piece.ofPoint_ne_many hmany)]
      simp only [Piece.standsFor_iff hmany, ih]
      constructor
      · rintro ⟨d, rest, rfl, hd, hrest⟩
        exact ⟨[d], rest, ⟨d, rfl, hd⟩, hrest, rfl⟩
      · rintro ⟨-, rest, ⟨d, rfl, hd⟩, hrest, rfl⟩
        exact ⟨d, rest, rfl, hd, hrest⟩

theorem cuts_of_no_wildcard (h : t.any Component.isWildcard = false) : Cuts t name ↔ name = t := by
  induction t generalizing name with
  | nil => exact cuts_nil
  | cons c t ih =>
    rw [List.any_cons, Bool.or_eq_false_iff] at h
    obtain ⟨hc, ht⟩ := h
    simp only [Component.isWildcard, Bool.or_eq_false_iff, decide_eq_false_iff_not] at hc
    obtain ⟨⟨hmany, hone⟩, -⟩ := hc
    rw [cuts_cons]
    constructor
    · rintro ⟨piece, rest, hpiece, hrest, rfl⟩
      obtain rfl := (ih ht).mp hrest
      rcases hpiece with ⟨⟩ | ⟨⟩ | -
      · exact absurd rfl hmany
      · exact absurd rfl hone
      · rfl
    · rintro rfl
      exact ⟨[c], t, .itself hmany hone, (ih ht).mpr rfl, rfl⟩

theorem accepts_iff_cuts (h : CodePoint.ofChar '[' ∉ t) :
    (component t).Accepts name ↔ Cuts t name := by
  unfold component
  split
  · rw [Component.Accepts, Piece.ofText_of_no_bracket h, matchesName_iff_cuts]
  · next hnone =>
    rw [Component.Accepts, cuts_of_no_wildcard (Bool.eq_false_iff.mpr hnone)]

end Pattern

end FluentFixtures.Files
