import FluentFixtures.Proofs.Json.Layout
import FluentFixtures.Proofs.Json.Number
import FluentFixtures.Text.Newline

/-!
# Leaves and names on a line

Whatever code points a leaf or a name holds, its text in a document is `Visible`:
it has no control character, and no space in front, so it stands on one line and
cannot be taken for a part of the indent.
-/

namespace FluentFixtures

namespace Text

def NoControl (t : Text) : Prop := ∀ c ∈ t, 0x20 ≤ c.val

/-- Looks at the text only, not at all code points. -/
instance (t : Text) : Decidable t.NoControl :=
  List.decidableBAll (fun c : CodePoint => 0x20 ≤ c.val) t

theorem NoControl.append {s t : Text} (hs : s.NoControl) (ht : t.NoControl) :
    NoControl (s ++ t) :=
  List.forall_mem_append.mpr ⟨hs, ht⟩

theorem noControl_hex_four (n : Nat) : NoControl (Text.hex 4 n) := by
  have hdigit : ∀ d < 16, 0x20 ≤ (CodePoint.hexDigit d).val := by decide
  intro c hc
  rw [Text.hex_four] at hc
  simp only [List.mem_cons, List.not_mem_nil, or_false] at hc
  rcases hc with rfl | rfl | rfl | rfl <;> exact hdigit _ (Nat.mod_lt _ (by omega))

theorem noControl_escapePoint {c : CodePoint} (hc : 0x20 ≤ c.val) :
    NoControl (Surrogate.escapePoint c) := by
  rw [Surrogate.escapePoint]
  split
  · exact NoControl.append (s := [0x5C, 0x75]) (by decide) (noControl_hex_four c.val)
  · exact List.forall_mem_singleton.mpr hc

theorem NoControl.escape {t : Text} (h : t.NoControl) : NoControl (Surrogate.escape t) := by
  intro c hc
  obtain ⟨d, hd, hc⟩ := List.mem_flatMap.mp hc
  exact noControl_escapePoint (h d hd) c hc

/-- Whether a text has no control characters and starts with something else than a space. -/
structure Visible (t : Text) : Prop where
  noControl : t.NoControl
  starts : ∃ c rest, t = c :: rest ∧ c ≠ 0x20

namespace Visible

variable {s t : Text}

theorem ne_nil (h : t.Visible) : t ≠ [] := by
  obtain ⟨c, rest, rfl, -⟩ := h.starts
  exact List.cons_ne_nil c rest

theorem append (hs : s.Visible) (ht : t.NoControl) : Visible (s ++ t) := by
  obtain ⟨c, rest, rfl, hc⟩ := hs.starts
  exact ⟨hs.noControl.append ht, c, rest ++ t, rfl, hc⟩

theorem behind (hs : s = [] ∨ s.Visible) (ht : t.Visible) : Visible (s ++ t) := by
  rcases hs with rfl | hs
  · exact ht
  · exact hs.append ht.noControl

theorem escape (h : t.Visible) : Visible (Surrogate.escape t) := by
  refine ⟨h.noControl.escape, ?_⟩
  obtain ⟨c, rest, rfl, hc⟩ := h.starts
  rw [Surrogate.escape, List.flatMap_cons, Surrogate.escapePoint]
  split
  · exact ⟨0x5C, _, rfl, by decide⟩
  · exact ⟨c, _, rfl, hc⟩

end Visible

end Text

namespace Json

open Text (NoControl Visible)

theorem noControl_escapePoint (c : CodePoint) : NoControl (escapePoint c) := by
  have hspelled (n : Nat) : NoControl (("\\u" : Text) ++ Text.hex 4 n) :=
    .append (by decide) (Text.noControl_hex_four n)
  unfold escapePoint
  split_ifs with h1 h2 h3 h4 h5 h6 h7 h8
  on_goal 8 => exact hspelled c.val
  on_goal 8 => exact List.forall_mem_singleton.mpr (by omega)
  all_goals decide

theorem visible_quote (t : Text) : Visible (quote t) := by
  refine ⟨?_, 0x22, t.flatMap escapePoint ++ [0x22], rfl, by decide⟩
  have hmark : NoControl [0x22] := by decide
  refine NoControl.append (s := 0x22 :: t.flatMap escapePoint) ?_ hmark
  refine NoControl.append (s := [0x22]) hmark ?_
  intro c hc
  obtain ⟨d, -, hd⟩ := List.mem_flatMap.mp hc
  exact noControl_escapePoint d c hd

theorem visible_numeral {n : Numeral} (hn : n.Canonical) : Visible n.text := by
  have hpoints : ∀ c ∈ n.text, 0x21 ≤ c.val := by
    refine Numeral.forall_mem_text hn ?_ (by decide)
    intro c hdigit
    simp only [CodePoint.isDigit, Bool.and_eq_true, decide_eq_true_eq] at hdigit
    omega
  refine ⟨fun c hc => (Nat.le_succ 0x20).trans (hpoints c hc), ?_⟩
  cases htext : n.text with
  | nil =>
    obtain ⟨c, rest, hwhole, -⟩ := hn.whole_eq_cons
    rw [Numeral.text, hwhole] at htext
    simp at htext
  | cons c rest =>
    rw [htext] at hpoints
    refine ⟨c, rest, rfl, ?_⟩
    rintro rfl
    exact absurd (hpoints 0x20 List.mem_cons_self) (by decide)

theorem visible_scalarText (value : Scalar) : Visible (scalarText value) := by
  have hword {c : CodePoint} {rest : Text} (h : NoControl (c :: rest)) (hc : c ≠ 0x20) :
      Visible (c :: rest) := ⟨h, c, rest, rfl, hc⟩
  cases value with
  | null => exact hword (by decide) (by decide)
  | bool value => cases value <;> exact hword (by decide) (by decide)
  | int n =>
    rw [scalarText, ← Numeral.text_ofInt]
    exact visible_numeral (Numeral.canonical_ofInt n)
  | double d =>
    cases d with
    | finite negative rank =>
      rw [scalarText, doubleText, ← Numeral.text_ofDouble]
      exact visible_numeral (Numeral.canonical_ofDouble negative rank)
    | infinite negative => cases negative <;> exact hword (by decide) (by decide)
    | nan => exact hword (by decide) (by decide)
  | str t => exact visible_quote t

end Json

end FluentFixtures
