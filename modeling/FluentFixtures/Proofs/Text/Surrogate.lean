import FluentFixtures.Text.Surrogate
import Mathlib.Data.List.Chain

/-!
# Joined surrogates

A text is `Joined` if no high surrogate stands directly before a low one: such a
pair would be read as one code point. Pieces of joined texts are joined, and so is
a text with its pairs joined. A code point that is spelled as an escape is told by
its digits.
-/

namespace FluentFixtures

namespace CodePoint

/-- Whether two code points do not make a surrogate pair. -/
def Apart (a b : CodePoint) : Prop := ¬ (a.isHighSurrogate = true ∧ b.isLowSurrogate = true)

instance (a b : CodePoint) : Decidable (Apart a b) :=
  inferInstanceAs (Decidable (¬ (_ ∧ _)))

theorem isHighSurrogate_eq_true {c : CodePoint} :
    c.isHighSurrogate = true ↔ 0xD800 ≤ c.val ∧ c.val < 0xDC00 := by
  simp [isHighSurrogate]

theorem isLowSurrogate_eq_true {c : CodePoint} :
    c.isLowSurrogate = true ↔ 0xDC00 ≤ c.val ∧ c.val < 0xE000 := by
  simp [isLowSurrogate]

theorem isSurrogate_eq_true {c : CodePoint} :
    c.isSurrogate = true ↔ 0xD800 ≤ c.val ∧ c.val < 0xE000 := by
  simp [isSurrogate]

theorem isSurrogate_eq_false {c : CodePoint} :
    c.isSurrogate = false ↔ c.val < 0xD800 ∨ 0xE000 ≤ c.val := by
  rw [← Bool.not_eq_true, isSurrogate_eq_true]
  omega

theorem isSurrogate_of_high {c : CodePoint} (h : c.isHighSurrogate = true) :
    c.isSurrogate = true := by
  rw [isHighSurrogate_eq_true] at h
  rw [isSurrogate_eq_true]
  omega

theorem isSurrogate_of_low {c : CodePoint} (h : c.isLowSurrogate = true) :
    c.isSurrogate = true := by
  rw [isLowSurrogate_eq_true] at h
  rw [isSurrogate_eq_true]
  omega

theorem not_high_of_low {c : CodePoint} (h : c.isLowSurrogate = true) :
    c.isHighSurrogate = false := by
  rw [isLowSurrogate_eq_true] at h
  rw [← Bool.not_eq_true, isHighSurrogate_eq_true]
  omega

theorem apart_of_left {a b : CodePoint} (h : a.isSurrogate = false) : Apart a b := by
  rintro ⟨hhigh, -⟩
  rw [isSurrogate_of_high hhigh] at h
  cases h

theorem isSurrogate_joinSurrogates {high low : CodePoint} (hhigh : high.isHighSurrogate = true)
    (hlow : low.isLowSurrogate = true) : (joinSurrogates high low).isSurrogate = false := by
  rw [isHighSurrogate_eq_true] at hhigh
  rw [isLowSurrogate_eq_true] at hlow
  have hval : (joinSurrogates high low).val =
      0x10000 + (high.val - 0xD800) * 0x400 + (low.val - 0xDC00) := val_ofNat (by omega)
  rw [← Bool.not_eq_true, isSurrogate_eq_true, hval]
  omega

/-! ## Hexadecimal digits -/

theorem hexValue?_hexDigit : ∀ n < 16, (hexDigit n).hexValue? = some n := by decide

end CodePoint

namespace Text

/-- Whether no high surrogate is followed by a low one. -/
def Joined (t : Text) : Prop := t.IsChain CodePoint.Apart

instance (t : Text) : Decidable t.Joined := inferInstanceAs (Decidable (t.IsChain CodePoint.Apart))

theorem Joined.tail {c : CodePoint} {t : Text} (h : Joined (c :: t)) : t.Joined := List.IsChain.tail h

theorem Joined.infix {s t : Text} (h : t.Joined) (hs : s <:+: t) : s.Joined := List.IsChain.infix h hs

theorem Joined.apart {c d : CodePoint} {t : Text} (h : Joined (c :: t)) (hd : d ∈ t.head?) :
    CodePoint.Apart c d := by
  cases t with
  | nil => cases hd
  | cons next rest =>
    obtain rfl := Option.some.inj hd
    exact (List.isChain_cons_cons.mp h).1

/-- The text with a code point in place of each surrogate pair. -/
def joinPairs : Text → Text
  | high :: low :: rest =>
    if high.isHighSurrogate && low.isLowSurrogate then
      CodePoint.joinSurrogates high low :: joinPairs rest
    else high :: joinPairs (low :: rest)
  | t => t

theorem joinPairs_cons {c : CodePoint} (hc : c.isHighSurrogate = false) (t : Text) :
    joinPairs (c :: t) = c :: joinPairs t := by
  cases t with
  | nil => rfl
  | cons next rest => rw [joinPairs, hc]; rfl

theorem joinPairs_high {high low : CodePoint} (hlow : low.isLowSurrogate = false) (rest : Text) :
    joinPairs (high :: low :: rest) = high :: joinPairs (low :: rest) := by
  rw [joinPairs, hlow, Bool.and_false]
  rfl

theorem joinPairs_pair {high low : CodePoint} (hhigh : high.isHighSurrogate = true)
    (hlow : low.isLowSurrogate = true) (rest : Text) :
    joinPairs (high :: low :: rest) = CodePoint.joinSurrogates high low :: joinPairs rest := by
  rw [joinPairs, hhigh, hlow]
  rfl

theorem joinPairs_eq_self {t : Text} (h : t.Joined) : joinPairs t = t := by
  induction t with
  | nil => rfl
  | cons high t ih =>
    cases t with
    | nil => rfl
    | cons low rest =>
      have hapart : ¬ (high.isHighSurrogate && low.isLowSurrogate) = true := by
        rw [Bool.and_eq_true]
        exact h.apart rfl
      rw [joinPairs, if_neg hapart, ih h.tail]

/-- No pair is left, and the first code point completes one only if it did before. -/
theorem joined_joinPairs_and_head : ∀ t : Text, (joinPairs t).Joined ∧
    ∀ c ∈ (joinPairs t).head?, c.isLowSurrogate = true → t.head? = some c
  | [] => ⟨List.isChain_nil, fun _ hc _ => hc⟩
  | [d] => ⟨List.isChain_singleton d, fun _ hc _ => hc⟩
  | high :: low :: rest => by
    by_cases hpair : high.isHighSurrogate = true ∧ low.isLowSurrogate = true
    · obtain ⟨hhigh, hlow⟩ := hpair
      have hplain := CodePoint.isSurrogate_joinSurrogates hhigh hlow
      rw [joinPairs_pair hhigh hlow]
      constructor
      · refine List.isChain_cons.mpr ⟨fun c _ => CodePoint.apart_of_left hplain, ?_⟩
        exact (joined_joinPairs_and_head rest).1
      · intro c hc hlow
        obtain rfl := Option.some.inj hc
        cases hplain.symm.trans (CodePoint.isSurrogate_of_low hlow)
    · obtain ⟨hjoined, hhead⟩ := joined_joinPairs_and_head (low :: rest)
      rw [← Bool.and_eq_true] at hpair
      rw [joinPairs, if_neg hpair]
      refine ⟨List.isChain_cons.mpr ⟨?_, hjoined⟩, fun c hc _ => hc⟩
      rintro c hc ⟨hhigh, hlow⟩
      obtain rfl := Option.some.inj (hhead c hc hlow)
      exact hpair ((Bool.and_eq_true _ _).mpr ⟨hhigh, hlow⟩)

theorem joined_joinPairs (t : Text) : (joinPairs t).Joined := (joined_joinPairs_and_head t).1

theorem hex_four (n : Nat) :
    hex 4 n = [CodePoint.hexDigit (n / 4096 % 16), CodePoint.hexDigit (n / 256 % 16),
      CodePoint.hexDigit (n / 16 % 16), CodePoint.hexDigit (n / 1 % 16)] := rfl

theorem isSurrogate_hex_four {n : Nat} {c : CodePoint} (h : c ∈ hex 4 n) :
    c.isSurrogate = false := by
  have hdigit : ∀ d < 16, (CodePoint.hexDigit d).isSurrogate = false := by decide
  rw [hex_four] at h
  simp only [List.mem_cons, List.not_mem_nil, or_false] at h
  rcases h with rfl | rfl | rfl | rfl <;> exact hdigit _ (Nat.mod_lt _ (by omega))

end Text

namespace Surrogate

theorem escape_append (s t : Text) : escape (s ++ t) = escape s ++ escape t := List.flatMap_append

theorem escape_cons {c : CodePoint} (hc : c.isSurrogate = false) (t : Text) :
    escape (c :: t) = c :: escape t := by
  rw [escape, List.flatMap_cons, escapePoint, hc]
  rfl

theorem escape_eq_self {t : Text} (h : ∀ c ∈ t, c.isSurrogate = false) : escape t = t := by
  induction t with
  | nil => rfl
  | cons c rest ih =>
    obtain ⟨hc, hrest⟩ := List.forall_mem_cons.mp h
    rw [escape_cons hc, ih hrest]

theorem isSurrogate_escape (t : Text) : ∀ c ∈ escape t, c.isSurrogate = false := by
  intro c hc
  obtain ⟨d, -, hd⟩ := List.mem_flatMap.mp hc
  rw [escapePoint] at hd
  split at hd
  · rcases List.mem_cons.mp hd with rfl | hd
    · rfl
    · rcases List.mem_cons.mp hd with rfl | hd
      · rfl
      · exact Text.isSurrogate_hex_four hd
  · next hplain =>
    rw [List.mem_singleton.mp hd]
    exact Bool.not_eq_true _ ▸ hplain

end Surrogate

end FluentFixtures
