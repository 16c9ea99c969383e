import FluentFixtures.Proofs.Json.Grammar
import Mathlib.Tactic.Common

/-!
# Reading strings

The reader takes the parts of a string one by one, each with what it spells, up
to the quote: `stringRest_of_spells` and `spells_of_stringRest`. What it has then
is the content of the parts: `pushAll_eq`.
-/

namespace FluentFixtures.Json

/-! ## Escapes -/

theorem shortEscape?_eq_some_iff {e c : CodePoint} :
    shortEscape? e = some c ↔ (e, c) ∈ shortEscapes := by
  have hall : shortEscapes.all (fun escape => shortEscape? escape.1 = some escape.2) = true := rfl
  constructor
  · intro h
    unfold shortEscape? at h
    split_ifs at h with h₁ h₂ h₃ h₄ h₅ h₆ h₇ h₈ <;> obtain rfl := Option.some.inj h <;>
      simp [shortEscapes, *]
  · exact fun h => of_decide_eq_true (List.all_eq_true.mp hall (e, c) h)

theorem ne_of_shortEscape? {e c : CodePoint} (h : shortEscape? e = some c) : e ≠ 'u' := by
  rintro rfl
  cases h

theorem IsHexDigit.lt {c : CodePoint} {n : ℕ} (h : IsHexDigit c n) : n < 16 := by
  rcases h with h | h <;> exact (List.getElem?_eq_some_iff.mp h).1

theorem hexValue?_eq_some_iff {c : CodePoint} {n : ℕ} : c.hexValue? = some n ↔ IsHexDigit c n := by
  constructor
  · intro h
    -- Digits and letters of one case are in a row, from some code point on.
    have hrow {row : Text} {first start count : ℕ}
        (hrow : ∀ n < count, row[start + n]? = some (CodePoint.ofNat (first + n)))
        (hge : first ≤ c.val) (hlt : c.val < first + count) :
        row[start + (c.val - first)]? = some c := by
      rw [hrow _ (by omega), Nat.add_sub_cancel' hge, CodePoint.ofNat_val]
    unfold CodePoint.hexValue? CodePoint.isDigit at h
    simp only [Bool.and_eq_true, decide_eq_true_eq] at h
    split_ifs at h with hdigit hlower hupper
    · have hdigits : ∀ n < 10,
          ("0123456789abcdef" : Text)[0 + n]? = some (CodePoint.ofNat (0x30 + n)) := by decide
      have hn : n = 0 + (c.val - 0x30) := by
        rw [← Option.some.inj h, CodePoint.digitValue, Nat.zero_add]
      rw [hn]
      exact .inl (hrow hdigits hdigit.1 (by omega))
    · have hletters : ∀ n < 6,
          ("0123456789abcdef" : Text)[10 + n]? = some (CodePoint.ofNat (0x61 + n)) := by decide
      have hn : n = 10 + (c.val - 0x61) := by
        rw [← Option.some.inj h]
        omega
      rw [hn]
      exact .inl (hrow hletters hlower.1 (by omega))
    · have hletters : ∀ n < 6,
          ("0123456789ABCDEF" : Text)[10 + n]? = some (CodePoint.ofNat (0x41 + n)) := by decide
      have hn : n = 10 + (c.val - 0x41) := by
        rw [← Option.some.inj h]
        omega
      rw [hn]
      exact .inr (hrow hletters hupper.1 (by omega))
  · have hlower : ∀ n < 16,
        (("0123456789abcdef" : Text)[n]?).bind CodePoint.hexValue? = some n := by decide
    have hupper : ∀ n < 16,
        (("0123456789ABCDEF" : Text)[n]?).bind CodePoint.hexValue? = some n := by decide
    intro h
    have hn := h.lt
    rcases h with h | h
    · have hvalue := hlower n hn
      rwa [h] at hvalue
    · have hvalue := hupper n hn
      rwa [h] at hvalue

theorem fourHex?_eq_some_iff {c d₁ d₂ d₃ d₄ : CodePoint} :
    fourHex? d₁ d₂ d₃ d₄ = some c ↔ ∃ n₁ n₂ n₃ n₄, IsHexDigit d₁ n₁ ∧ IsHexDigit d₂ n₂ ∧
      IsHexDigit d₃ n₃ ∧ IsHexDigit d₄ n₄ ∧
      c.val = n₁ * 4096 + n₂ * 256 + n₃ * 16 + n₄ := by
  have hval {n₁ n₂ n₃ n₄ : ℕ} (h₁ : n₁ < 16) (h₂ : n₂ < 16) (h₃ : n₃ < 16) (h₄ : n₄ < 16) :
      (CodePoint.ofNat (((n₁ * 16 + n₂) * 16 + n₃) * 16 + n₄)).val =
        n₁ * 4096 + n₂ * 256 + n₃ * 16 + n₄ := by
    rw [CodePoint.val_ofNat (by omega)]
    omega
  simp only [fourHex?, Option.bind_eq_bind, Option.bind_eq_some_iff, hexValue?_eq_some_iff]
  constructor
  · rintro ⟨n₁, h₁, n₂, h₂, n₃, h₃, n₄, h₄, hc⟩
    refine ⟨n₁, n₂, n₃, n₄, h₁, h₂, h₃, h₄, ?_⟩
    rw [← Option.some.inj hc, hval h₁.lt h₂.lt h₃.lt h₄.lt]
  · rintro ⟨n₁, n₂, n₃, n₄, h₁, h₂, h₃, h₄, hc⟩
    refine ⟨n₁, h₁, n₂, h₂, n₃, h₃, n₄, h₄, congrArg some (Fin.ext ?_)⟩
    rw [hval h₁.lt h₂.lt h₃.lt h₄.lt, hc]

/-! ## One part -/

section Steps

variable (offset : Nat) (afterHigh : Bool) (done : Text)

theorem stringRest_quote (rest : Text) :
    stringRest offset afterHigh done (0x22 :: rest) = .ok (done.reverse, offset + 1, rest) := by
  rw [stringRest.eq_def]
  exact if_pos rfl

theorem stringRest_short {c e : CodePoint} (he : shortEscape? e = some c) (rest : Text) :
    stringRest offset afterHigh done (0x5C :: e :: rest) =
      stringRest (offset + 2) false (c :: done) rest := by
  have hquote : ¬ (0x5C : CodePoint) = '"' := by decide
  have hbackslash : (0x5C : CodePoint) = '\\' := rfl
  rw [stringRest.eq_def]
  simp only [if_neg hquote, if_pos hbackslash, if_neg (ne_of_shortEscape? he), he]

theorem stringRest_number {c d₁ d₂ d₃ d₄ : CodePoint} (h : fourHex? d₁ d₂ d₃ d₄ = some c)
    (next : CodePoint) (rest : Text) :
    stringRest offset afterHigh done (0x5C :: 0x75 :: d₁ :: d₂ :: d₃ :: d₄ :: next :: rest) =
      stringRest (offset + 6) (awaitsLow afterHigh c) (pushEscaped afterHigh c done)
        (next :: rest) := by
  have hquote : ¬ (0x5C : CodePoint) = '"' := by decide
  have hbackslash : (0x5C : CodePoint) = '\\' := rfl
  have hu : (0x75 : CodePoint) = 'u' := rfl
  rw [stringRest.eq_def]
  simp only [if_neg hquote, if_pos hbackslash, if_pos hu, h]

theorem stringRest_plain {c : CodePoint} (hquote : c ≠ '"') (hbackslash : c ≠ '\\')
    (hcontrol : 0x20 ≤ c.val) (rest : Text) : stringRest offset afterHigh done (c :: rest) =
      stringRest (offset + 1) false (c :: done) rest := by
  rw [stringRest.eq_def]
  simp only [if_neg hquote, if_neg hbackslash, if_neg (not_lt.mpr hcontrol)]

theorem push_single {c : CodePoint} (hc : (afterHigh && c.isLowSurrogate) = false) :
    awaitsLow afterHigh c = c.isHighSurrogate ∧ pushEscaped afterHigh c done = c :: done := by
  constructor
  · rw [awaitsLow, hc]
    exact Bool.and_true _
  · cases done with
    | nil => rfl
    | cons high below =>
      rw [pushEscaped, hc]
      rfl

theorem push_pair {c : CodePoint} (hlow : c.isLowSurrogate = true) (high : CodePoint) :
    awaitsLow true c = false ∧
      pushEscaped true c (high :: done) = CodePoint.joinSurrogates high c :: done := by
  constructor
  · rw [awaitsLow, hlow]
    exact Bool.and_false _
  · rw [pushEscaped, hlow]
    rfl

end Steps

/-! ## All parts -/

/-- The content of a string when more parts are added to what was read. -/
def pushAll (afterHigh : Bool) (done : Text) : List StringPart → Text
  | [] => done.reverse
  | .char c :: parts => pushAll false (c :: done) parts
  | .number c :: parts => pushAll (awaitsLow afterHigh c) (pushEscaped afterHigh c done) parts

variable {parts : List StringPart} {s t rest : Text} {offset size : Nat} {afterHigh : Bool}
  {done found : Text}

theorem stringRest_of_spells (h : SpellsParts parts s) (rest : Text) (offset : Nat)
    (afterHigh : Bool) (done : Text) : ∃ size,
      stringRest offset afterHigh done (s ++ 0x22 :: rest) =
        .ok (pushAll afterHigh done parts, size, rest) := by
  induction h generalizing offset afterHigh done with
  | nil => exact ⟨offset + 1, stringRest_quote offset afterHigh done rest⟩
  | @cons part parts s s' hpart _ ih =>
    rw [List.append_assoc]
    cases hpart with
    | plain hcontrol hquote hbackslash =>
      rw [List.singleton_append,
        stringRest_plain offset afterHigh done hquote hbackslash hcontrol]
      exact ih _ _ _
    | short he =>
      rw [List.cons_append, List.singleton_append,
        stringRest_short offset afterHigh done (shortEscape?_eq_some_iff.mpr he)]
      exact ih _ _ _
    | number h₁ h₂ h₃ h₄ hc =>
      have hnumber := fourHex?_eq_some_iff.mpr ⟨_, _, _, _, h₁, h₂, h₃, h₄, hc⟩
      obtain ⟨next, more, hmore⟩ : ∃ next more, s' ++ 0x22 :: rest = next :: more :=
        List.exists_cons_of_ne_nil (by simp)
      obtain ⟨size, hrest⟩ := ih (offset + 6) (awaitsLow afterHigh _) (pushEscaped afterHigh _ done)
      refine ⟨size, ?_⟩
      rw [hmore] at hrest ⊢
      exact (stringRest_number offset afterHigh done hnumber next more).trans hrest

theorem spells_of_stringRest (h : stringRest offset afterHigh done t = .ok (found, size, rest)) :
    ∃ parts s, SpellsParts parts s ∧ t = s ++ 0x22 :: rest ∧
      found = pushAll afterHigh done parts := by
  fun_induction stringRest offset afterHigh done t with
  | case2 offset afterHigh done =>
    cases h
    exact ⟨[], [], .nil, rfl, rfl⟩
  | case4 offset afterHigh done d₁ d₂ d₃ d₄ next more c hnumber hquote ih =>
    obtain ⟨parts, s, hs, htext, hfound⟩ := ih h
    obtain ⟨n₁, n₂, n₃, n₄, h₁, h₂, h₃, h₄, hc⟩ := fourHex?_eq_some_iff.mp hnumber
    refine ⟨.number c :: parts, _, .cons (.number h₁ h₂ h₃ h₄ hc) hs, ?_, hfound⟩
    rw [htext]
    rfl
  | case7 offset afterHigh done e more hu c he hquote ih =>
    obtain ⟨parts, s, hs, htext, hfound⟩ := ih h
    refine ⟨.char c :: parts, _, .cons (.short (shortEscape?_eq_some_iff.mp he)) hs, ?_, hfound⟩
    rw [htext]
    rfl
  | case10 offset afterHigh done c more hquote hbackslash hcontrol ih =>
    obtain ⟨parts, s, hs, htext, hfound⟩ := ih h
    have hplain := StringPart.Spelled.plain (not_lt.mp hcontrol) hquote hbackslash
    refine ⟨.char c :: parts, _, .cons hplain hs, ?_, hfound⟩
    rw [htext]
    rfl
  | _ => cases h

/-! ## The content -/

theorem content_char (c : CodePoint) (parts : List StringPart) :
    content (.char c :: parts) = c :: content parts := rfl

theorem content_number {c : CodePoint} (hc : c.isHighSurrogate = false) (parts : List StringPart) :
    content (.number c :: parts) = c :: content parts := by
  cases parts with
  | nil => rfl
  | cons part parts =>
    cases part with
    | char d => rfl
    | number d =>
      rw [content, hc]
      rfl

theorem content_high {high low : CodePoint} (hlow : low.isLowSurrogate = false)
    (parts : List StringPart) :
    content (.number high :: .number low :: parts) = high :: content (.number low :: parts) := by
  rw [content, hlow, Bool.and_false]
  rfl

theorem content_pair {high low : CodePoint} (hhigh : high.isHighSurrogate = true)
    (hlow : low.isLowSurrogate = true) (parts : List StringPart) :
    content (.number high :: .number low :: parts) =
      CodePoint.joinSurrogates high low :: content parts := by
  rw [content, hhigh, hlow]
  rfl

/-- Parts are added with their pairs joined: at the start, and after the number of a high surrogate
that the first one may complete. -/
theorem pushAll_eq (parts : List StringPart) (done : Text) :
    pushAll false done parts = done.reverse ++ content parts ∧
      ∀ high : CodePoint, high.isHighSurrogate = true →
        pushAll true (high :: done) parts = done.reverse ++ content (.number high :: parts) := by
  induction parts generalizing done with
  | nil =>
    refine ⟨(List.append_nil _).symm, ?_⟩
    intro high _
    exact List.reverse_cons
  | cons part parts ih =>
    cases part with
    | char c =>
      have hchar (done : Text) (afterHigh : Bool) : pushAll afterHigh done (.char c :: parts) =
          done.reverse ++ content (.char c :: parts) := by
        rw [pushAll, (ih (c :: done)).1, content_char, List.reverse_cons, List.append_assoc]
        rfl
      refine ⟨hchar done false, fun high _ => ?_⟩
      rw [hchar, List.reverse_cons, List.append_assoc]
      rfl
    | number c =>
      have hsingle (afterHigh : Bool) (done : Text) (hc : (afterHigh && c.isLowSurrogate) = false) :
          pushAll afterHigh done (.number c :: parts) =
            done.reverse ++ content (.number c :: parts) := by
        obtain ⟨hawaits, hpush⟩ := push_single afterHigh done hc
        rw [pushAll, hawaits, hpush]
        cases hhigh : c.isHighSurrogate with
        | false =>
          rw [(ih (c :: done)).1, content_number hhigh, List.reverse_cons, List.append_assoc]
          rfl
        | true => exact (ih done).2 c hhigh
      refine ⟨hsingle false done rfl, fun high hhigh => ?_⟩
      cases hlow : c.isLowSurrogate with
      | true =>
        obtain ⟨hawaits, hpush⟩ := push_pair done hlow high
        rw [pushAll, hawaits, hpush, (ih _).1, content_pair hhigh hlow, List.reverse_cons,
          List.append_assoc]
        rfl
      | false =>
        rw [hsingle true (high :: done) hlow, content_high hlow, List.reverse_cons,
          List.append_assoc]
        rfl

/-! ## Strings -/

theorem Token.next_quote (t : Text) : Token.next 0x22 t =
    match stringRest 1 false [] t with
    | .error fault => .error fault
    | .ok (content, size, rest) => .ok (.str content, size, rest) := rfl

theorem Token.next_string {u : Text} (h : IsString u s) (t : Text) : ∃ rest size,
    s ++ t = 0x22 :: rest ∧ Token.next 0x22 rest = .ok (.str u, size, t) := by
  obtain @⟨parts, s, hparts⟩ := h
  obtain ⟨size, hread⟩ := stringRest_of_spells hparts t 1 false []
  refine ⟨s ++ 0x22 :: t, size, by simp, ?_⟩
  rw [Token.next_quote, hread, (pushAll_eq parts []).1]
  rfl

theorem isString_of_next {token : Token} (h : Token.next 0x22 t = .ok (token, size, rest)) :
    ∃ u s, 0x22 :: t = s ++ rest ∧ token = .str u ∧ IsString u s := by
  rw [Token.next_quote] at h
  split at h
  · cases h
  · next found size' rest' hread =>
    cases h
    obtain ⟨parts, s, hparts, rfl, rfl⟩ := spells_of_stringRest hread
    refine ⟨content parts, _, ?_, ?_, .quoted hparts⟩
    · simp
    · rw [(pushAll_eq parts []).1]
      rfl

end FluentFixtures.Json
