import FluentFixtures.Proofs.Text.Surrogate
import FluentFixtures.Text.Utf8
import Mathlib.Tactic.Common

/-!
# UTF-8 is read as it is written

A code point is written as a first byte and all that it owes, and a first byte
with all that it owes is what is written for the code point that is read. So
bytes are read as a text if and only if they are what the text is written as:
`decode_eq_ok_iff`.
-/

namespace FluentFixtures.Utf8

/-! ## Code points and their bytes -/

theorem toNat_byte {n : Nat} (h : n < 0x100) : (byte n).toNat = n := by
  rw [byte, UInt8.toNat_ofNat']
  exact Nat.mod_eq_of_lt h

theorem byte_eq {b : UInt8} {n : Nat} (h : b.toNat = n) : byte n = b := by
  rw [← h]
  exact UInt8.ofNat_toNat

section Widths

variable {c : CodePoint} {b x y z : UInt8}

theorem encodePoint_one (hc : c.val < 0x80) (hb : b.toNat = c.val) : encodePoint c = [b] := by
  unfold encodePoint
  simp only
  rw [if_pos hc, byte_eq hb]

theorem encodePoint_two (hc : 0x80 ≤ c.val ∧ c.val < 0x800) (hb : b.toNat = 0xC0 + c.val / 0x40)
    (hx : x.toNat = 0x80 + c.val % 0x40) : encodePoint c = [b, x] := by
  unfold encodePoint
  simp only
  rw [if_neg (by omega), if_pos hc.2, byte_eq hb, byte_eq hx]

theorem encodePoint_three (hc : 0x800 ≤ c.val ∧ c.val < 0x10000)
    (hb : b.toNat = 0xE0 + c.val / 0x1000) (hx : x.toNat = 0x80 + c.val / 0x40 % 0x40)
    (hy : y.toNat = 0x80 + c.val % 0x40) : encodePoint c = [b, x, y] := by
  unfold encodePoint
  simp only
  rw [if_neg (by omega), if_neg (by omega), if_pos hc.2, byte_eq hb, byte_eq hx, byte_eq hy]

theorem encodePoint_four (hc : 0x10000 ≤ c.val) (hb : b.toNat = 0xF0 + c.val / 0x40000)
    (hx : x.toNat = 0x80 + c.val / 0x1000 % 0x40) (hy : y.toNat = 0x80 + c.val / 0x40 % 0x40)
    (hz : z.toNat = 0x80 + c.val % 0x40) : encodePoint c = [b, x, y, z] := by
  unfold encodePoint
  simp only
  rw [if_neg (by omega), if_neg (by omega), if_neg (by omega), byte_eq hb, byte_eq hx, byte_eq hy,
    byte_eq hz]

end Widths

/-- The bytes of a code point, by their numbers. -/
theorem encodePoint_cases (c : CodePoint) :
    (c.val < 0x80 ∧ ∃ b, encodePoint c = [b] ∧ b.toNat = c.val) ∨
      ((0x80 ≤ c.val ∧ c.val < 0x800) ∧ ∃ b x, encodePoint c = [b, x] ∧
        b.toNat = 0xC0 + c.val / 0x40 ∧ x.toNat = 0x80 + c.val % 0x40) ∨
      ((0x800 ≤ c.val ∧ c.val < 0x10000) ∧ ∃ b x y, encodePoint c = [b, x, y] ∧
        b.toNat = 0xE0 + c.val / 0x1000 ∧ x.toNat = 0x80 + c.val / 0x40 % 0x40 ∧
        y.toNat = 0x80 + c.val % 0x40) ∨
      (0x10000 ≤ c.val ∧ ∃ b x y z, encodePoint c = [b, x, y, z] ∧
        b.toNat = 0xF0 + c.val / 0x40000 ∧ x.toNat = 0x80 + c.val / 0x1000 % 0x40 ∧
        y.toNat = 0x80 + c.val / 0x40 % 0x40 ∧ z.toNat = 0x80 + c.val % 0x40) := by
  have hlt := c.isLt
  by_cases h1 : c.val < 0x80
  · have h := toNat_byte (n := c.val) (by omega)
    exact .inl ⟨h1, _, encodePoint_one h1 h, h⟩
  by_cases h2 : c.val < 0x800
  · have hb := toNat_byte (n := 0xC0 + c.val / 0x40) (by omega)
    have hx := toNat_byte (n := 0x80 + c.val % 0x40) (by omega)
    exact .inr (.inl ⟨by omega, _, _, encodePoint_two (by omega) hb hx, hb, hx⟩)
  have hy := toNat_byte (n := 0x80 + c.val / 0x40 % 0x40) (by omega)
  have hz := toNat_byte (n := 0x80 + c.val % 0x40) (by omega)
  by_cases h3 : c.val < 0x10000
  · have hb := toNat_byte (n := 0xE0 + c.val / 0x1000) (by omega)
    exact .inr (.inr (.inl ⟨by omega, _, _, _, encodePoint_three (by omega) hb hy hz, hb, hy, hz⟩))
  · have hb := toNat_byte (n := 0xF0 + c.val / 0x40000) (by omega)
    have hx := toNat_byte (n := 0x80 + c.val / 0x1000 % 0x40) (by omega)
    exact .inr (.inr (.inr ⟨by omega, _, _, _, _, encodePoint_four (by omega) hb hx hy hz, hb, hx,
      hy, hz⟩))

/-- What a byte between sequences means, by its number. -/
theorem lead_cases (b : UInt8) (pos : Nat) :
    (b.toNat < 0x80 ∧ lead b pos = some (.inl (CodePoint.ofNat b.toNat))) ∨
      ((0xC2 ≤ b.toNat ∧ b.toNat < 0xE0) ∧ ∃ p : Pending, lead b pos = some (.inr p) ∧ p.owed = 1 ∧
        p.bits = b.toNat - 0xC0 ∧ p.low.toNat = 0x80 ∧ p.high.toNat = 0xBF) ∨
      ((0xE0 ≤ b.toNat ∧ b.toNat < 0xF0) ∧ ∃ p : Pending, lead b pos = some (.inr p) ∧ p.owed = 2 ∧
        p.bits = b.toNat - 0xE0 ∧ p.low.toNat = (if b.toNat = 0xE0 then 0xA0 else 0x80) ∧
        p.high.toNat = if b.toNat = 0xED then 0x9F else 0xBF) ∨
      ((0xF0 ≤ b.toNat ∧ b.toNat < 0xF5) ∧ ∃ p : Pending, lead b pos = some (.inr p) ∧ p.owed = 3 ∧
        p.bits = b.toNat - 0xF0 ∧ p.low.toNat = (if b.toNat = 0xF0 then 0x90 else 0x80) ∧
        p.high.toNat = if b.toNat = 0xF4 then 0x8F else 0xBF) ∨
      ((0x80 ≤ b.toNat ∧ b.toNat < 0xC2 ∨ 0xF5 ≤ b.toNat) ∧ lead b pos = none) := by
  unfold lead
  simp only
  by_cases h1 : b.toNat < 0x80
  · rw [if_pos h1]
    exact .inl ⟨h1, rfl⟩
  rw [if_neg h1]
  by_cases h2 : b.toNat < 0xC2
  · rw [if_pos h2]
    exact .inr (.inr (.inr (.inr ⟨by omega, rfl⟩)))
  rw [if_neg h2]
  by_cases h3 : b.toNat < 0xE0
  · rw [if_pos h3]
    exact .inr (.inl ⟨by omega, _, rfl, rfl, rfl, rfl, rfl⟩)
  rw [if_neg h3]
  by_cases h4 : b.toNat < 0xF0
  · rw [if_pos h4]
    exact .inr (.inr (.inl ⟨by omega, _, rfl, rfl, rfl, apply_ite UInt8.toNat _ _ _,
      apply_ite UInt8.toNat _ _ _⟩))
  rw [if_neg h4]
  by_cases h5 : b.toNat < 0xF5
  · rw [if_pos h5]
    exact .inr (.inr (.inr (.inl ⟨by omega, _, rfl, rfl, rfl, apply_ite UInt8.toNat _ _ _,
      apply_ite UInt8.toNat _ _ _⟩)))
  rw [if_neg h5]
  exact .inr (.inr (.inr (.inr ⟨by omega, rfl⟩)))

/-- The bits that were read with those that a byte adds. -/
def pushBits (bits : Nat) (b : UInt8) : Nat := bits * 0x40 + (b.toNat - 0x80)

theorem pushBits_eq {b : UInt8} {n : Nat} (h : b.toNat = 0x80 + n) (bits : Nat) :
    pushBits bits b = bits * 0x40 + n := by
  unfold pushBits
  omega

/-- Whether the bytes are all that is owed, the first of them in its bounds. -/
structure Pending.Completes (p : Pending) (tails : Bytes) : Prop where
  length : tails.length = p.owed
  first : ∀ b ∈ tails.head?, p.low.toNat ≤ b.toNat ∧ b.toNat ≤ p.high.toNat
  more : ∀ b ∈ tails.tail, 0x80 ≤ b.toNat ∧ b.toNat ≤ 0xBF

section Sequences

variable {b : UInt8} {c : CodePoint} {tails : Bytes}

/-- What is written for a code point is a first byte and all that it owes. -/
theorem lead_of_encodePoint (pos : Nat) (h : encodePoint c = b :: tails)
    (hc : c.isSurrogate = false) :
    (lead b pos = some (.inl c) ∧ tails = []) ∨
      ∃ p, lead b pos = some (.inr p) ∧ p.Completes tails ∧
        tails.foldl pushBits p.bits = c.val := by
  rw [CodePoint.isSurrogate_eq_false] at hc
  have hlt := c.isLt
  rcases encodePoint_cases c with ⟨hn, b, h', hb⟩ | ⟨hn, b, x, h', hb, hx⟩ |
    ⟨hn, b, x, y, h', hb, hx, hy⟩ | ⟨hn, b, x, y, z, h', hb, hx, hy, hz⟩
  all_goals
    rw [h'] at h
    obtain ⟨rfl, rfl⟩ := List.cons.inj h
  · rcases lead_cases b pos with ⟨-, hlead⟩ | _ | _ | _ | _
    · refine .inl ⟨hlead.trans ?_, rfl⟩
      rw [hb, CodePoint.ofNat_val]
    all_goals omega
  · rcases lead_cases b pos with _ | ⟨-, p, hlead, howed, hbits, hlow, hhigh⟩ | _ | _ | _
    · omega
    · refine .inr ⟨p, hlead, ⟨howed.symm, ?_, List.forall_mem_nil _⟩, ?_⟩
      · rintro _ ⟨rfl⟩
        omega
      · rw [List.foldl_cons, List.foldl_nil, pushBits_eq hx]
        omega
    all_goals omega
  · rcases lead_cases b pos with _ | _ | ⟨-, p, hlead, howed, hbits, hlow, hhigh⟩ | _ | _
    · omega
    · omega
    · have hmore : ∀ b ∈ [y], 0x80 ≤ b.toNat ∧ b.toNat ≤ 0xBF :=
        List.forall_mem_singleton.mpr (by omega)
      refine .inr ⟨p, hlead, ⟨howed.symm, ?_, hmore⟩, ?_⟩
      · rintro _ ⟨rfl⟩
        split_ifs at hlow hhigh <;> omega
      · rw [List.foldl_cons, List.foldl_cons, List.foldl_nil, pushBits_eq hx, pushBits_eq hy]
        omega
    all_goals omega
  · rcases lead_cases b pos with _ | _ | _ | ⟨-, p, hlead, howed, hbits, hlow, hhigh⟩ | _
    · omega
    · omega
    · omega
    · have hmore : ∀ b ∈ [y, z], 0x80 ≤ b.toNat ∧ b.toNat ≤ 0xBF :=
        List.forall_mem_cons.mpr ⟨by omega, List.forall_mem_singleton.mpr (by omega)⟩
      refine .inr ⟨p, hlead, ⟨howed.symm, ?_, hmore⟩, ?_⟩
      · rintro _ ⟨rfl⟩
        split_ifs at hlow hhigh <;> omega
      · rw [List.foldl_cons, List.foldl_cons, List.foldl_cons, List.foldl_nil, pushBits_eq hx,
          pushBits_eq hy, pushBits_eq hz]
        omega
    · omega

/-- A byte that means a code point is what is written for it. -/
theorem encodePoint_of_lead {pos : Nat} (h : lead b pos = some (.inl c)) :
    encodePoint c = [b] ∧ c.isSurrogate = false := by
  rw [CodePoint.isSurrogate_eq_false]
  rcases lead_cases b pos with ⟨hb, hlead⟩ | ⟨-, p, hlead, -⟩ | ⟨-, p, hlead, -⟩ |
    ⟨-, p, hlead, -⟩ | ⟨-, hlead⟩
  · cases hlead.symm.trans h
    have hval : (CodePoint.ofNat b.toNat).val = b.toNat := CodePoint.val_ofNat (by omega)
    exact ⟨encodePoint_one (by omega) hval.symm, .inl (by omega)⟩
  all_goals cases hlead.symm.trans h

/-- A tail byte is its low six bits above `0x80`. -/
theorem exists_tail (h : 0x80 ≤ b.toNat ∧ b.toNat ≤ 0xBF) : ∃ n < 0x40, b.toNat = 0x80 + n :=
  ⟨b.toNat - 0x80, by omega, by omega⟩

theorem owed_of_lead {pos : Nat} {p : Pending} (h : lead b pos = some (.inr p)) : 0 < p.owed := by
  rcases lead_cases b pos with ⟨-, hlead⟩ | ⟨-, p, hlead, howed, -⟩ | ⟨-, p, hlead, howed, -⟩ |
    ⟨-, p, hlead, howed, -⟩ | ⟨-, hlead⟩
  all_goals cases hlead.symm.trans h
  all_goals omega

/-- A first byte and all that it owes are what is written for a code point. -/
theorem encodePoint_of_completes {pos : Nat} {p : Pending} (h : lead b pos = some (.inr p))
    (hp : p.Completes tails) :
    encodePoint (CodePoint.ofNat (tails.foldl pushBits p.bits)) = b :: tails ∧
      (CodePoint.ofNat (tails.foldl pushBits p.bits)).isSurrogate = false := by
  rw [CodePoint.isSurrogate_eq_false]
  obtain ⟨n, hn⟩ : ∃ n, tails.foldl pushBits p.bits = n := ⟨_, rfl⟩
  rcases lead_cases b pos with ⟨hb, hlead⟩ | ⟨hb, p, hlead, howed, hbits, hlow, hhigh⟩ |
    ⟨hb, p, hlead, howed, hbits, hlow, hhigh⟩ | ⟨hb, p, hlead, howed, hbits, hlow, hhigh⟩ | ⟨-, hlead⟩
  all_goals cases hlead.symm.trans h
  all_goals
    rw [hn]
    have hlength := hp.length.trans howed
  · obtain ⟨x, rfl⟩ := List.length_eq_one_iff.mp hlength
    have hfirst := hp.first x rfl
    obtain ⟨i, hi, hx⟩ := exists_tail (b := x) (by omega)
    rw [List.foldl_cons, List.foldl_nil, pushBits_eq hx] at hn
    have hval : (CodePoint.ofNat n).val = n := CodePoint.val_ofNat (by omega)
    exact ⟨encodePoint_two (by omega) (by omega) (by omega), by omega⟩
  · obtain ⟨x, y, rfl⟩ := List.length_eq_two.mp hlength
    have hfirst := hp.first x rfl
    obtain ⟨i, hi, hx⟩ := exists_tail (b := x) (by split_ifs at hlow hhigh <;> omega)
    obtain ⟨j, hj, hy⟩ := exists_tail (hp.more y (by simp))
    rw [List.foldl_cons, List.foldl_cons, List.foldl_nil, pushBits_eq hx, pushBits_eq hy] at hn
    have hval : (CodePoint.ofNat n).val = n := CodePoint.val_ofNat (by omega)
    have hbounds : 0x800 ≤ n ∧ (n < 0xD800 ∨ 0xE000 ≤ n) := by
      split_ifs at hlow hhigh <;> omega
    exact ⟨encodePoint_three (by omega) (by omega) (by omega) (by omega), by omega⟩
  · obtain ⟨x, y, z, rfl⟩ := List.length_eq_three.mp hlength
    have hfirst := hp.first x rfl
    obtain ⟨i, hi, hx⟩ := exists_tail (b := x) (by split_ifs at hlow hhigh <;> omega)
    obtain ⟨j, hj, hy⟩ := exists_tail (hp.more y (by simp))
    obtain ⟨k, hk, hz⟩ := exists_tail (hp.more z (by simp))
    rw [List.foldl_cons, List.foldl_cons, List.foldl_cons, List.foldl_nil, pushBits_eq hx,
      pushBits_eq hy, pushBits_eq hz] at hn
    have hbounds : 0x10000 ≤ n ∧ n < 0x110000 := by split_ifs at hlow hhigh <;> omega
    have hval : (CodePoint.ofNat n).val = n := CodePoint.val_ofNat hbounds.2
    exact ⟨encodePoint_four (by omega) (by omega) (by omega) (by omega) (by omega),
      by omega⟩

end Sequences

/-! ## Texts and their bytes -/

section Steps

variable {pos : Nat} {done t : Text} {p : Pending} {b : UInt8} {rest tails bytes : Bytes}

/-- What is pending after one of several bytes that are owed. -/
def Pending.push (p : Pending) (b : UInt8) : Pending where
  byte := p.byte
  start := p.start
  read := p.read + 1
  owed := p.owed - 1
  bits := pushBits p.bits b

theorem Pending.push_bits (p : Pending) (b : UInt8) : (p.push b).bits = pushBits p.bits b := rfl

theorem decodeFrom_last (hb : p.low.toNat ≤ b.toNat ∧ b.toNat ≤ p.high.toNat) (howed : p.owed = 1) :
    decodeFrom pos done (some p) (b :: rest) =
      decodeFrom (pos + 1) (CodePoint.ofNat (pushBits p.bits b) :: done) none rest := by
  have hb' : p.low ≤ b ∧ b ≤ p.high := hb
  rw [decodeFrom, if_pos hb']
  exact if_pos howed

theorem decodeFrom_push (hb : p.low.toNat ≤ b.toNat ∧ b.toNat ≤ p.high.toNat) (howed : p.owed ≠ 1) :
    decodeFrom pos done (some p) (b :: rest) =
      decodeFrom (pos + 1) done (some (p.push b)) rest := by
  have hb' : p.low ≤ b ∧ b ≤ p.high := hb
  rw [decodeFrom, if_pos hb']
  exact if_neg howed

theorem decodeFrom_completes (pos : Nat) (done : Text) (rest : Bytes) (h : p.Completes tails)
    (howed : 0 < p.owed) : ∃ pos', decodeFrom pos done (some p) (tails ++ rest) =
      decodeFrom pos' (CodePoint.ofNat (tails.foldl pushBits p.bits) :: done) none rest := by
  induction tails generalizing p pos with
  | nil =>
    have hnone : 0 = p.owed := h.length
    omega
  | cons b more ih =>
    have hb := h.first b rfl
    have hlength : more.length + 1 = p.owed := h.length
    cases more with
    | nil => exact ⟨pos + 1, decodeFrom_last hb hlength.symm⟩
    | cons next more =>
      rw [List.length_cons] at hlength
      obtain ⟨hnext, hmore⟩ := List.forall_mem_cons.mp h.more
      have hpushed : (p.push b).Completes (next :: more) := by
        refine ⟨?_, ?_, hmore⟩
        · show more.length + 1 = p.owed - 1
          omega
        · rintro _ ⟨rfl⟩
          exact hnext
      have howed' : 0 < (p.push b).owed := by
        show 0 < p.owed - 1
        omega
      rw [List.cons_append, decodeFrom_push hb (by omega)]
      obtain ⟨pos', hrest⟩ := ih (pos + 1) hpushed howed'
      refine ⟨pos', ?_⟩
      rw [hrest, Pending.push_bits, List.foldl_cons (l := next :: more)]

/-- A text is read only from bytes that bring all that is owed. -/
theorem exists_completes (h : decodeFrom pos done (some p) bytes = .ok t) (howed : 0 < p.owed) :
    ∃ tails rest, bytes = tails ++ rest ∧ p.Completes tails := by
  induction bytes generalizing p pos with
  | nil =>
    rw [decodeFrom] at h
    cases h
  | cons b rest ih =>
    by_cases hb : p.low.toNat ≤ b.toNat ∧ b.toNat ≤ p.high.toNat
    · by_cases hlast : p.owed = 1
      · refine ⟨[b], rest, rfl, hlast.symm, ?_, List.forall_mem_nil _⟩
        rintro _ ⟨rfl⟩
        exact hb
      · rw [decodeFrom_push hb hlast] at h
        have howed' : 0 < (p.push b).owed := by
          show 0 < p.owed - 1
          omega
        obtain ⟨tails, rest', rfl, htails⟩ := ih h howed'
        have hlength : tails.length = p.owed - 1 := htails.length
        refine ⟨b :: tails, rest', rfl, ?_, ?_, ?_⟩
        · rw [List.length_cons]
          omega
        · rintro _ ⟨rfl⟩
          exact hb
        · cases tails with
          | nil => exact List.forall_mem_nil _
          | cons next more => exact List.forall_mem_cons.mpr ⟨htails.first next rfl, htails.more⟩
    · have hb' : ¬ (p.low ≤ b ∧ b ≤ p.high) := hb
      rw [decodeFrom, if_neg hb'] at h
      cases h

theorem decodeFrom_encodePoint (pos : Nat) (done : Text) (rest : Bytes) {c : CodePoint}
    (hc : c.isSurrogate = false) :
    ∃ pos', decodeFrom pos done none (encodePoint c ++ rest) =
      decodeFrom pos' (c :: done) none rest := by
  obtain ⟨b, tails, h⟩ : ∃ b tails, encodePoint c = b :: tails := by
    rcases encodePoint_cases c with ⟨-, b, h, -⟩ | ⟨-, b, x, h, -⟩ | ⟨-, b, x, y, h, -⟩ |
      ⟨-, b, x, y, z, h, -⟩ <;> exact ⟨b, _, h⟩
  rcases lead_of_encodePoint pos h hc with ⟨hlead, rfl⟩ | ⟨p, hlead, hp, hbits⟩
  · refine ⟨pos + 1, ?_⟩
    rw [h, List.singleton_append, decodeFrom, hlead]
  · obtain ⟨pos', hrest⟩ := decodeFrom_completes (pos + 1) done rest hp (owed_of_lead hlead)
    refine ⟨pos', ?_⟩
    rw [h, List.cons_append, decodeFrom, hlead]
    simp only
    rw [hrest, hbits, CodePoint.ofNat_val]

theorem decodeFrom_flatMap (ht : ∀ c ∈ t, c.isSurrogate = false) :
    decodeFrom pos done none (t.flatMap encodePoint) = .ok (done.reverse ++ t) := by
  induction t generalizing pos done with
  | nil => rw [List.flatMap_nil, decodeFrom, List.append_nil]
  | cons c t ih =>
    obtain ⟨hc, ht⟩ := List.forall_mem_cons.mp ht
    obtain ⟨pos', hstep⟩ := decodeFrom_encodePoint pos done (t.flatMap encodePoint) hc
    rw [List.flatMap_cons, hstep, ih ht, List.reverse_cons, List.append_assoc]
    rfl

/-- What is read first is a code point from its bytes. -/
theorem exists_encodePoint (h : decodeFrom pos done none (b :: rest) = .ok t) :
    ∃ c rest' pos', encodePoint c ++ rest' = b :: rest ∧ c.isSurrogate = false ∧
      rest'.length ≤ rest.length ∧ decodeFrom pos' (c :: done) none rest' = .ok t := by
  rw [decodeFrom] at h
  split at h
  · cases h
  · next c hlead =>
    obtain ⟨hc, hplain⟩ := encodePoint_of_lead hlead
    refine ⟨c, rest, pos + 1, ?_, hplain, le_rfl, h⟩
    rw [hc]
    rfl
  · next p hlead =>
    have howed := owed_of_lead hlead
    obtain ⟨tails, rest', rfl, htails⟩ := exists_completes h howed
    obtain ⟨hc, hplain⟩ := encodePoint_of_completes hlead htails
    obtain ⟨pos', hstep⟩ := decodeFrom_completes (pos + 1) done rest' htails howed
    refine ⟨_, rest', pos', ?_, hplain, ?_, hstep.symm.trans h⟩
    · rw [hc, List.cons_append]
    · rw [List.length_append]
      omega

theorem exists_flatMap (h : decodeFrom pos done none bytes = .ok t) :
    ∃ s, t = done.reverse ++ s ∧ s.flatMap encodePoint = bytes ∧ ∀ c ∈ s, c.isSurrogate = false := by
  -- A code point takes up to four bytes, so the induction is on their number.
  obtain ⟨n, hn⟩ : ∃ n, bytes.length = n := ⟨_, rfl⟩
  induction n using Nat.strongRecOn generalizing bytes pos done with
  | ind n ih =>
    cases bytes with
    | nil =>
      rw [decodeFrom] at h
      obtain rfl := Except.ok.inj h
      exact ⟨[], (List.append_nil _).symm, rfl, List.forall_mem_nil _⟩
    | cons b rest =>
      obtain ⟨c, rest', pos', hc, hplain, hlength, hrest⟩ := exists_encodePoint h
      have hshorter : rest'.length < n := by
        rw [← hn, List.length_cons]
        omega
      obtain ⟨s, rfl, hs, hpoints⟩ := ih rest'.length hshorter hrest rfl
      refine ⟨c :: s, ?_, ?_, List.forall_mem_cons.mpr ⟨hplain, hpoints⟩⟩
      · rw [List.reverse_cons, List.append_assoc]
        rfl
      · rw [List.flatMap_cons, hs, hc]

end Steps

/-! ## Single bytes and code points -/

theorem mem_encodePoint_iff {b : UInt8} (hb : b.toNat < 0x80) {c : CodePoint} :
    b ∈ encodePoint c ↔ c.val = b.toNat := by
  rcases encodePoint_cases c with ⟨hc, b0, h, h0⟩ | ⟨hc, b0, x, h, h0, hx⟩ |
    ⟨hc, b0, x, y, h, h0, hx, hy⟩ | ⟨hc, b0, x, y, z, h, h0, hx, hy, hz⟩
  all_goals
    rw [h]
    simp only [List.mem_cons, List.not_mem_nil, or_false, ← UInt8.toNat_inj]
    omega

theorem mem_flatMap_iff {b : UInt8} (hb : b.toNat < 0x80) {t : Text} :
    b ∈ t.flatMap encodePoint ↔ CodePoint.ofNat b.toNat ∈ t := by
  have hval : (CodePoint.ofNat b.toNat).val = b.toNat := CodePoint.val_ofNat (by omega)
  rw [List.mem_flatMap]
  constructor
  · rintro ⟨c, hc, hmem⟩
    rw [mem_encodePoint_iff hb, ← hval] at hmem
    rwa [← Fin.ext hmem]
  · intro hc
    exact ⟨_, hc, (mem_encodePoint_iff hb).mpr hval⟩

/-! ## Reading and writing -/

theorem encode?_eq_some_iff {t : Text} {bytes : Bytes} : encode? t = some bytes ↔
    (∀ c ∈ t, c.isSurrogate = false) ∧ t.flatMap encodePoint = bytes := by
  simp [encode?, List.any_eq_true]

theorem decode_eq_ok_iff {t : Text} {bytes : Bytes} :
    decode bytes = .ok t ↔ encode? t = some bytes := by
  rw [encode?_eq_some_iff]
  constructor
  · intro h
    obtain ⟨s, rfl, hs, hplain⟩ := exists_flatMap h
    exact ⟨hplain, hs⟩
  · rintro ⟨hplain, rfl⟩
    exact decodeFrom_flatMap hplain

end FluentFixtures.Utf8
