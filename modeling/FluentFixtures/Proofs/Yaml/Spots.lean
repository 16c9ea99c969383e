import FluentFixtures.Proofs.Config.Reader
import FluentFixtures.Proofs.Json.Printable
import FluentFixtures.Yaml.Source
import FluentFixtures.Yaml.Scalar
import Mathlib.Tactic.Common

/-!
# Spots of printable text

Text of printable ASCII stands on one line, one column a code point. Between the
parts of a document are blanks, which are skipped, and its quoted texts are read
back by the escapes they have: `quotedRest_quote`.
-/

namespace FluentFixtures

namespace Yaml

/-- A place in a file. -/
structure Place where
  index : Nat
  line : Nat
  column : Nat

namespace Place

def spots (p : Place) (t : Text) : List Spot := spotsFrom p.index p.line p.column t

def after (p : Place) (c : CodePoint) : Place :=
  if isBreak c then ⟨p.index + 1, p.line + 1, 0⟩
  else if c = byteOrderMark then ⟨p.index + 1, p.line, p.column⟩
  else ⟨p.index + 1, p.line, p.column + 1⟩

def spot (p : Place) (c : CodePoint) : Spot := ⟨c, p.index, p.line, p.column⟩

variable {p : Place} {c : CodePoint} {s t : Text}

theorem spots_cons (p : Place) (c : CodePoint) (t : Text) :
    p.spots (c :: t) = p.spot c :: (p.after c).spots t := by
  show spotsFrom p.index p.line p.column (c :: t) = _
  rw [spotsFrom, after]
  split
  · rfl
  · split <;> rfl

theorem exists_spots (p : Place) (t : Text) : ∃ s rest, p.spots t = s :: rest := by
  cases t with
  | nil => exact ⟨_, _, rfl⟩
  | cons c t => exact ⟨_, _, spots_cons p c t⟩

theorem spots_ne_nil (p : Place) (t : Text) : p.spots t ≠ [] := by
  obtain ⟨s, rest, h⟩ := p.exists_spots t
  rw [h]
  exact List.cons_ne_nil s rest

theorem isBreak_of_printable (h : 0x20 ≤ c.val ∧ c.val ≤ 0x7E) : isBreak c = false := by
  have hne : ∀ d : CodePoint, d.val < 0x20 ∨ 0x7E < d.val → c ≠ d := by
    rintro d hd rfl
    omega
  simp [isBreak, hne 0x85 (by decide), hne 0x2028 (by decide), hne 0x2029 (by decide),
    hne (CodePoint.ofChar '\n') (by decide)]

theorem after_of_printable (h : 0x20 ≤ c.val ∧ c.val ≤ 0x7E) :
    p.after c = ⟨p.index + 1, p.line, p.column + 1⟩ := by
  have hmark : c ≠ byteOrderMark := by
    rintro rfl
    exact absurd h.2 (by decide)
  rw [after, isBreak_of_printable h, if_neg Bool.false_ne_true, if_neg hmark]

/-- Printable text stands on one line. -/
theorem spots_append_of_printable (hs : s.PrintableAscii) (p : Place) (t : Text) :
    ∃ front, p.spots (s ++ t) =
        front ++ Place.spots ⟨p.index + s.length, p.line, p.column + s.length⟩ t ∧
      front.map Spot.char = s := by
  induction s generalizing p with
  | nil => exact ⟨[], rfl, rfl⟩
  | cons c s ih =>
    obtain ⟨hc, hs⟩ := List.forall_mem_cons.mp hs
    obtain ⟨front, hfront, hchars⟩ := ih hs (p.after c)
    refine ⟨p.spot c :: front, ?_, by rw [List.map_cons, hchars]; rfl⟩
    rw [List.cons_append, spots_cons, hfront, after_of_printable hc]
    simp [Nat.add_assoc, Nat.add_comm 1]

end Place

/-! ## Blanks -/

theorem skip_blanks {blanks : Text} (h : Text.IsSpacing blanks) (p : Place) (broke : Bool) (t : Text) :
    ∃ broke' p', skip false broke (p.spots (blanks ++ t)) = skip false broke' (Place.spots p' t) := by
  induction blanks generalizing p broke with
  | nil => exact ⟨broke, p, rfl⟩
  | cons c blanks ih =>
    obtain ⟨hc, hblanks⟩ := List.forall_mem_cons.mp h
    rw [List.cons_append, Place.spots_cons]
    rcases hc with rfl | rfl
    · exact ih hblanks _ broke
    · exact ih hblanks _ true

/-! ## Quoted texts -/

section Quoted

variable {start : Mark} {done : Text} {s q : Spot} {rest : List Spot} {t : Text} {c : CodePoint}

theorem quotedRest_end (hs : s.char = CodePoint.ofChar '"') :
    quotedRest true start done (s :: rest) = .ok (done.reverse, rest) := by
  rw [quotedRest.eq_def]
  simp only [hs]
  rfl

theorem quotedRest_escape {e : Spot} (hs : s.char = CodePoint.ofChar '\\')
    (he : shortEscape? e.char = some c) :
    quotedRest true start done (s :: e :: rest) = quotedRest true start (c :: done) rest := by
  rw [quotedRest.eq_def]
  simp only [hs, he]
  rfl

/-- Blanks that no line end follows. -/
theorem quotedRest_blanks (hs : isBlank s.char = true)
    (hrest : (rest.dropWhile fun s => isBlank s.char).head?.any (fun s => isBreak s.char) = false) :
    quotedRest true start done (s :: rest) = quotedRest true start
      (((rest.takeWhile fun s => isBlank s.char).map Spot.char).reverse ++ s.char :: done)
      (rest.dropWhile fun s => isBlank s.char) := by
  have hother : isEnd s.char = false ∧ s.char ≠ CodePoint.ofChar '"' ∧
      s.char ≠ CodePoint.ofChar '\\' ∧ isBreak s.char = false := by
    simp only [isBlank, Bool.or_eq_true, decide_eq_true_eq] at hs
    rcases hs with hs | hs <;> rw [hs] <;> decide
  obtain ⟨hend, hquote, hescape, hbreak⟩ := hother
  rw [quotedRest.eq_def]
  simp only [hend, hquote, hescape, hbreak, hs, hrest, Bool.true_and, Bool.not_true,
    Bool.false_and, decide_false, Bool.false_eq_true, if_false, if_true]

/-- A blank that is not at the end of a line. -/
theorem quotedRest_blank (hs : isBlank s.char = true)
    (hrest : (rest.dropWhile fun s => isBlank s.char).head?.any (fun s => isBreak s.char) = false) :
    quotedRest true start done (s :: rest) = quotedRest true start (s.char :: done) rest := by
  rw [quotedRest_blanks hs hrest]
  cases rest with
  | nil => rfl
  | cons next rest =>
    by_cases hnext : isBlank next.char = true
    · rw [List.dropWhile_cons, if_pos hnext] at hrest ⊢
      rw [quotedRest_blanks hnext hrest, List.takeWhile_cons, if_pos hnext, List.map_cons,
        List.reverse_cons, List.append_assoc]
      rfl
    · rw [List.dropWhile_cons, if_neg hnext, List.takeWhile_cons, if_neg hnext]
      rfl

theorem quotedRest_itself (hs : 0x20 ≤ s.char.val ∧ s.char.val ≤ 0x7E)
    (hquote : s.char ≠ CodePoint.ofChar '"') (hescape : s.char ≠ CodePoint.ofChar '\\')
    (hblank : isBlank s.char = false) :
    quotedRest true start done (s :: rest) = quotedRest true start (s.char :: done) rest := by
  have hend : isEnd s.char = false := by
    rw [isEnd, decide_eq_false_iff_not]
    intro hzero
    rw [hzero] at hs
    exact absurd hs.1 (by decide)
  rw [quotedRest.eq_def]
  simp only [hend, hquote, hescape, hblank, Place.isBreak_of_printable hs, Bool.true_and,
    Bool.not_true, Bool.false_and, decide_false, Bool.false_eq_true, if_false]

theorem exists_escape {front : List Spot} {d : CodePoint}
    (h : front.map Spot.char = [CodePoint.ofChar '\\', d]) :
    ∃ s e, front = [s, e] ∧ s.char = CodePoint.ofChar '\\' ∧ e.char = d := by
  obtain ⟨s, front, rfl, hs, h⟩ := List.map_eq_cons_iff.mp h
  obtain ⟨e, front, rfl, he, h⟩ := List.map_eq_cons_iff.mp h
  obtain rfl := List.map_eq_nil_iff.mp h
  exact ⟨s, e, rfl, hs, he⟩

/-- What stands for a printable code point in quotes is that code point again. -/
theorem quotedRest_escapePoint (hc : 0x20 ≤ c.val ∧ c.val ≤ 0x7E) {front : List Spot}
    (hfront : front.map Spot.char = Json.escapePoint c)
    (hrest : (rest.dropWhile fun s => isBlank s.char).head?.any (fun s => isBreak s.char) = false) :
    quotedRest true start done (front ++ rest) = quotedRest true start (c :: done) rest := by
  by_cases hquote : c = CodePoint.ofChar '"'
  · subst hquote
    obtain ⟨s, e, rfl, hs, he⟩ := exists_escape hfront
    exact quotedRest_escape hs (by rw [he]; rfl)
  by_cases hescape : c = CodePoint.ofChar '\\'
  · subst hescape
    obtain ⟨s, e, rfl, hs, he⟩ := exists_escape hfront
    exact quotedRest_escape hs (by rw [he]; rfl)
  rw [Json.escapePoint_of_printable hc hquote hescape] at hfront
  obtain ⟨s, front, rfl, rfl, hnil⟩ := List.map_eq_cons_iff.mp hfront
  obtain rfl := List.map_eq_nil_iff.mp hnil
  by_cases hblank : isBlank s.char = true
  · exact quotedRest_blank hblank hrest
  · exact quotedRest_itself hc hquote hescape (Bool.eq_false_iff.mpr hblank)

/-- Where printable code points come first, no line ends after blanks. -/
theorem no_break_of_printable {front : List Spot} (hfront : Text.PrintableAscii (front.map Spot.char))
    (hq : q.char = CodePoint.ofChar '"') :
    ((front ++ q :: rest).dropWhile fun s => isBlank s.char).head?.any
      (fun s => isBreak s.char) = false := by
  induction front with
  | nil =>
    have hblank : ¬ isBlank q.char = true := by rw [hq]; decide
    rw [List.nil_append, List.dropWhile_cons, if_neg hblank]
    show isBreak q.char = false
    rw [hq]
    rfl
  | cons s front ih =>
    obtain ⟨hs, hfront⟩ := List.forall_mem_cons.mp hfront
    rw [List.cons_append, List.dropWhile_cons]
    split
    · exact ih hfront
    · exact Place.isBreak_of_printable hs

/-- The rest of a quoted text is read up to the quotation mark that ends it. -/
theorem quotedRest_quote {front : List Spot} (ht : t.PrintableAscii)
    (hfront : front.map Spot.char = t.flatMap Json.escapePoint) (hq : q.char = CodePoint.ofChar '"') :
    quotedRest true start done (front ++ q :: rest) = .ok (done.reverse ++ t, rest) := by
  induction t generalizing front done with
  | nil =>
    obtain rfl := List.map_eq_nil_iff.mp hfront
    rw [List.nil_append, quotedRest_end hq, List.append_nil]
  | cons c t ih =>
    obtain ⟨hc, ht⟩ := List.forall_mem_cons.mp ht
    rw [List.flatMap_cons] at hfront
    obtain ⟨first, others, rfl, hfirst, hothers⟩ := List.map_eq_append_iff.mp hfront
    have hprintable : Text.PrintableAscii (others.map Spot.char) := by
      rw [hothers]
      exact Json.printable_flatMap_escapePoint ht
    rw [List.append_assoc,
      quotedRest_escapePoint hc hfirst (no_break_of_printable hprintable hq), ih ht hothers,
      List.reverse_cons, List.append_assoc]
    rfl

theorem quote_append (t more : Text) : Json.quote t ++ more =
    CodePoint.ofChar '"' :: (t.flatMap Json.escapePoint ++ CodePoint.ofChar '"' :: more) := by
  rw [Json.quote, List.append_assoc]
  rfl

/-- The spots of a quoted text behind the quotation mark that begins it, at a place. -/
theorem exists_spots_quoted (ht : t.PrintableAscii) (p : Place) (more : Text) :
    ∃ front q, (p.after (CodePoint.ofChar '"')).spots
          (t.flatMap Json.escapePoint ++ CodePoint.ofChar '"' :: more) =
        front ++ q :: Place.spots ⟨p.index + (Json.quote t).length, p.line,
          p.column + (Json.quote t).length⟩ more ∧
      front.map Spot.char = t.flatMap Json.escapePoint ∧ q.char = CodePoint.ofChar '"' := by
  have hmark : 0x20 ≤ (CodePoint.ofChar '"').val ∧ (CodePoint.ofChar '"').val ≤ 0x7E := by decide
  have hlength : (Json.quote t).length = 1 + (t.flatMap Json.escapePoint).length + 1 := by
    simp [Json.quote]
    omega
  obtain ⟨front, hfront, hchars⟩ := Place.spots_append_of_printable (Json.printable_flatMap_escapePoint ht)
    (p.after (CodePoint.ofChar '"')) (CodePoint.ofChar '"' :: more)
  rw [Place.spots_cons, Place.after_of_printable hmark, Place.after_of_printable hmark] at hfront
  rw [Place.after_of_printable hmark, hfront, hlength]
  simp only [← Nat.add_assoc]
  exact ⟨front, _, rfl, hchars, rfl⟩

end Quoted

end Yaml

end FluentFixtures
