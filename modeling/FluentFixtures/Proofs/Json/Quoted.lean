import FluentFixtures.Json.Writer
import FluentFixtures.Proofs.Json.Parts
import FluentFixtures.Proofs.Text.Surrogate

/-!
# Strings in print

A text in print is a string whose content has the surrogate pairs joined:
`isString_pointTexts`. A string that is spelled without surrogates is joined:
`IsString.joined`.
-/

namespace FluentFixtures.Json

/-! ## The text of a code point -/

/-- What stands for a code point in a finished document. -/
def pointText (c : CodePoint) : Text := Surrogate.escape (escapePoint c)

/-- The content of a string in a finished document. -/
def pointTexts (t : Text) : Text := t.flatMap pointText

theorem escape_flatMap_escapePoint (t : Text) :
    Surrogate.escape (t.flatMap escapePoint) = pointTexts t := by
  induction t with
  | nil => rfl
  | cons c rest ih =>
    rw [List.flatMap_cons, Surrogate.escape_append, ih]
    rfl

theorem pointText_cases (c : CodePoint) :
    (∃ e, pointText c = [0x5C, e] ∧ e ≠ 'u' ∧ shortEscape? e = some c) ∨
      (pointText c = Surrogate.spelled c ∧ c.val < 0x10000) ∨
      (pointText c = [c] ∧ c ≠ '"' ∧ c ≠ '\\' ∧ 0x20 ≤ c.val ∧ c.isSurrogate = false) := by
  by_cases hquote : c = '"'
  · subst hquote
    exact .inl ⟨'"', rfl, by decide, rfl⟩
  by_cases hbackslash : c = '\\'
  · subst hbackslash
    exact .inl ⟨'\\', rfl, by decide, rfl⟩
  by_cases hline : c = '\n'
  · subst hline
    exact .inl ⟨'n', rfl, by decide, rfl⟩
  by_cases hreturn : c = '\r'
  · subst hreturn
    exact .inl ⟨'r', rfl, by decide, rfl⟩
  by_cases htab : c = '\t'
  · subst htab
    exact .inl ⟨'t', rfl, by decide, rfl⟩
  by_cases hback : c = 0x08
  · subst hback
    exact .inl ⟨'b', rfl, by decide, rfl⟩
  by_cases hfeed : c = 0x0C
  · subst hfeed
    exact .inl ⟨'f', rfl, by decide, rfl⟩
  rw [pointText, escapePoint, if_neg hquote, if_neg hbackslash, if_neg hline, if_neg hreturn,
    if_neg htab, if_neg hback, if_neg hfeed]
  by_cases hcontrol : c.val < 0x20
  · refine .inr (.inl ⟨?_, by omega⟩)
    rw [if_pos hcontrol, Surrogate.escape_append,
      Surrogate.escape_eq_self fun d hd => Text.isSurrogate_hex_four hd]
    rfl
  · rw [if_neg hcontrol]
    by_cases hsurrogate : c.isSurrogate = true
    · have hbound := CodePoint.isSurrogate_eq_true.mp hsurrogate
      refine .inr (.inl ⟨?_, by omega⟩)
      simp [Surrogate.escape, Surrogate.escapePoint, hsurrogate]
    · refine .inr (.inr ⟨?_, hquote, hbackslash, by omega, Bool.not_eq_true _ ▸ hsurrogate⟩)
      simp [Surrogate.escape, Surrogate.escapePoint, hsurrogate]

theorem isSurrogate_of_shortEscape? {e c : CodePoint} (h : shortEscape? e = some c) :
    c.isSurrogate = false := by
  unfold shortEscape? at h
  split_ifs at h <;> obtain rfl := Option.some.inj h <;> rfl

/-! ## Parts that stand for a text -/

/-- Whether parts are code points in a row, surrogates among them by their numbers. -/
inductive Stands : List StringPart → Text → Prop where
  | nil : Stands [] []
  | number {c : CodePoint} {parts : List StringPart} {t : Text} (h : Stands parts t) :
    Stands (.number c :: parts) (c :: t)
  | char {c : CodePoint} {parts : List StringPart} {t : Text} (hc : c.isSurrogate = false)
    (h : Stands parts t) : Stands (.char c :: parts) (c :: t)

/-- The content of parts that stand for a text is the text with its pairs joined. -/
theorem Stands.content {parts : List StringPart} {t : Text} (h : Stands parts t) :
    content parts = t.joinPairs := by
  induction h with
  | nil => rfl
  | @char c parts t hc _ ih =>
    have hhigh : c.isHighSurrogate = false :=
      Bool.eq_false_iff.mpr fun h => Bool.eq_false_iff.mp hc (CodePoint.isSurrogate_of_high h)
    rw [content_char, ih, Text.joinPairs_cons hhigh]
  | @number c parts t h ih =>
    cases hhigh : c.isHighSurrogate with
    | false => rw [content_number hhigh, ih, Text.joinPairs_cons hhigh]
    | true =>
      cases h with
      | nil => rfl
      | @char d parts t hd _ =>
        have hlow : d.isLowSurrogate = false :=
          Bool.eq_false_iff.mpr fun h => Bool.eq_false_iff.mp hd (CodePoint.isSurrogate_of_low h)
        rw [Text.joinPairs_high hlow, ← ih]
        rfl
      | @number d parts t _ =>
        cases hlow : d.isLowSurrogate with
        | false => rw [content_high hlow, Text.joinPairs_high hlow, ih]
        | true =>
          -- What follows the pair is what follows its second half.
          have hhigh' : d.isHighSurrogate = false := CodePoint.not_high_of_low hlow
          rw [content_number hhigh', Text.joinPairs_cons hhigh'] at ih
          rw [content_pair hhigh hlow, Text.joinPairs_pair hhigh hlow, (List.cons.inj ih).2]

/-- The parts of a string that is spelled without surrogates stand for a text. -/
theorem SpellsParts.stands {parts : List StringPart} {s : Text} (h : SpellsParts parts s)
    (hs : ∀ c ∈ s, c.isSurrogate = false) : ∃ t, Stands parts t := by
  induction h with
  | nil => exact ⟨[], .nil⟩
  | cons hpart _ ih =>
    obtain ⟨hspelled, hrest⟩ := List.forall_mem_append.mp hs
    obtain ⟨t, hstands⟩ := ih hrest
    cases hpart with
    | @plain c => exact ⟨c :: t, .char (hspelled c List.mem_cons_self) hstands⟩
    | @short e c he =>
      have hplain := isSurrogate_of_shortEscape? (shortEscape?_eq_some_iff.mpr he)
      exact ⟨c :: t, .char hplain hstands⟩
    | @number c => exact ⟨c :: t, .number hstands⟩

theorem IsString.joined {u s : Text} (h : IsString u s) (hs : ∀ c ∈ s, c.isSurrogate = false) :
    u.Joined := by
  obtain @⟨parts, s, hparts⟩ := h
  have hinner := (List.forall_mem_append.mp (List.forall_mem_cons.mp hs).2).1
  obtain ⟨t, hstands⟩ := hparts.stands hinner
  rw [hstands.content]
  exact Text.joined_joinPairs t

/-! ## Strings in print -/

theorem isHexDigit_hexDigit (n : Nat) : IsHexDigit (CodePoint.hexDigit (n % 16)) (n % 16) :=
  hexValue?_eq_some_iff.mp (CodePoint.hexValue?_hexDigit _ (Nat.mod_lt _ (by omega)))

theorem spelled_pointText (c : CodePoint) :
    (StringPart.number c).Spelled (pointText c) ∨
      (StringPart.char c).Spelled (pointText c) ∧ c.isSurrogate = false := by
  rcases pointText_cases c with ⟨e, htext, -, he⟩ | ⟨htext, hc⟩ |
    ⟨htext, hquote, hbackslash, hcontrol, hc⟩
  · rw [htext]
    exact .inr ⟨.short (shortEscape?_eq_some_iff.mp he), isSurrogate_of_shortEscape? he⟩
  · rw [htext, Surrogate.spelled, Text.hex_four]
    exact .inl (.number (isHexDigit_hexDigit _) (isHexDigit_hexDigit _) (isHexDigit_hexDigit _)
      (isHexDigit_hexDigit _) (by omega))
  · rw [htext]
    exact .inr ⟨.plain hcontrol hquote hbackslash, hc⟩

theorem spells_pointTexts (t : Text) :
    ∃ parts, SpellsParts parts (pointTexts t) ∧ Stands parts t := by
  induction t with
  | nil => exact ⟨[], .nil, .nil⟩
  | cons c t ih =>
    obtain ⟨parts, hspells, hstands⟩ := ih
    rw [pointTexts, List.flatMap_cons]
    rcases spelled_pointText c with hc | ⟨hc, hplain⟩
    · exact ⟨.number c :: parts, .cons hc hspells, .number hstands⟩
    · exact ⟨.char c :: parts, .cons hc hspells, .char hplain hstands⟩

theorem isString_pointTexts (t : Text) :
    IsString t.joinPairs (0x22 :: (pointTexts t ++ [0x22])) := by
  obtain ⟨parts, hspells, hstands⟩ := spells_pointTexts t
  rw [← hstands.content]
  exact .quoted hspells

end FluentFixtures.Json
