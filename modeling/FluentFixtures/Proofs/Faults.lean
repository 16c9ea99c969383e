import Mathlib.Tactic.Common

/-!
# Steps that can fail

What it says of the steps of a computation that it gives a value, or that it
fails: the steps before the end give values, and the first that does not is why
it fails.
-/

namespace FluentFixtures

variable {α β ε η : Type} {result : Except ε α} {e : ε}

theorem mapError_eq_ok_iff {f : ε → η} {a : α} : result.mapError f = .ok a ↔ result = .ok a := by
  cases result <;> simp [Except.mapError]

theorem mapError_eq_error_iff {f : ε → η} {e : η} :
    result.mapError f = .error e ↔ ∃ cause, result = .error cause ∧ f cause = e := by
  cases result <;> simp [Except.mapError]

theorem map_eq_ok_iff {f : α → β} {b : β} : result.map f = .ok b ↔ ∃ a, result = .ok a ∧ f a = b := by
  cases result <;> simp [Except.map]

theorem map_eq_error_iff {f : α → β} : result.map f = .error e ↔ result = .error e := by
  cases result <;> simp [Except.map]

theorem toOption_eq_some_iff {a : α} : result.toOption = some a ↔ result = .ok a := by
  cases result <;> simp [Except.toOption]

theorem map_mapError (f : α → β) (g : ε → η) :
    (result.mapError g).map f = (result.map f).mapError g := by
  cases result <;> rfl

theorem bind_eq_ok_iff {next : α → Except ε β} {b : β} :
    result >>= next = .ok b ↔ ∃ a, result = .ok a ∧ next a = .ok b := by
  cases result <;> simp [bind, Except.bind]

theorem bind_eq_error_iff {next : α → Except ε β} :
    result >>= next = .error e ↔ result = .error e ∨ ∃ a, result = .ok a ∧ next a = .error e := by
  cases result <;> simp [bind, Except.bind]

def fault? : Except ε α → Option ε
  | .error e => some e
  | .ok _ => none

theorem fault?_eq_some_iff : fault? result = some e ↔ result = .error e := by
  cases result <;> simp [fault?]

theorem fault?_eq_none_iff : fault? result = none ↔ ∀ e, result ≠ .error e := by
  cases result <;> simp [fault?]

theorem exists_ok_iff : (∃ a, result = .ok a) ↔ fault? result = none := by
  cases result <;> simp [fault?]

theorem fault?_map (f : α → β) : fault? (result.map f) = fault? result := by
  cases result <;> rfl

/-! ## Lists of steps -/

section Steps

variable {γ : Type} {f : α → Except ε β} {l rest : List α}

theorem mapM_map (g : β → γ) :
    (l.mapM f).map (List.map g) = l.mapM fun a => (f a).map g := by
  induction l with
  | nil => rfl
  | cons a l ih =>
    rw [List.mapM_cons, List.mapM_cons, ← ih]
    cases f a with
    | error e => rfl
    | ok b => cases l.mapM f <;> rfl

/-- Steps that give values, one after another, give the values in order. -/
theorem mapM_of_map_eq {values : List β} (h : l.map f = values.map .ok) : l.mapM f = .ok values := by
  induction l generalizing values with
  | nil =>
    obtain rfl := List.map_eq_nil_iff.mp h.symm
    rfl
  | cons a l ih =>
    cases values with
    | nil => cases h
    | cons b values =>
      obtain ⟨ha, hl⟩ := List.cons.inj h
      rw [List.mapM_cons, ha, ih hl]
      rfl

theorem map_eq_of_mapM {values : List β} (h : l.mapM f = .ok values) : l.map f = values.map .ok := by
  induction l generalizing values with
  | nil =>
    cases h
    rfl
  | cons a l ih =>
    rw [List.mapM_cons] at h
    obtain ⟨b, ha, h⟩ := bind_eq_ok_iff.mp h
    obtain ⟨rest, hl, h⟩ := bind_eq_ok_iff.mp h
    cases h
    rw [List.map_cons, List.map_cons, ha, ih hl]

theorem mapM_of_error {values : List β} {a : α} (h : l.map f = values.map .ok)
    (ha : f a = .error e) : (l ++ a :: rest).mapM f = .error e := by
  rw [List.mapM_append, mapM_of_map_eq h, List.mapM_cons, ha]
  rfl

theorem exists_of_mapM_error (h : l.mapM f = .error e) : ∃ a ∈ l, f a = .error e := by
  induction l with
  | nil => cases h
  | cons a l ih =>
    rw [List.mapM_cons] at h
    rcases bind_eq_error_iff.mp h with ha | ⟨b, -, h⟩
    · exact ⟨a, List.mem_cons_self, ha⟩
    · rcases bind_eq_error_iff.mp h with hl | ⟨values, -, h⟩
      · obtain ⟨x, hx, hfx⟩ := ih hl
        exact ⟨x, List.mem_cons_of_mem a hx, hfx⟩
      · cases h

/-- Steps that keep a property of what they pass on give a value that has it. -/
theorem exists_foldlM {σ : Type} {g : σ → α → Except ε σ} {p : σ → Prop} {s : σ}
    (hstep : ∀ s, p s → ∀ a ∈ l, ∃ s', g s a = .ok s' ∧ p s') (hs : p s) :
    ∃ s', l.foldlM g s = .ok s' ∧ p s' := by
  induction l generalizing s with
  | nil => exact ⟨s, rfl, hs⟩
  | cons a l ih =>
    obtain ⟨s', ha, hs'⟩ := hstep s hs a List.mem_cons_self
    obtain ⟨s'', hl, hs''⟩ := ih (fun s hs b hb => hstep s hs b (List.mem_cons_of_mem a hb)) hs'
    exact ⟨s'', by rw [List.foldlM_cons, ha]; exact hl, hs''⟩

end Steps

/-! ## Filtering -/

variable {f : α → Except ε Bool} {l : List α}

theorem mem_filterAuxM_iff {acc kept : List α} (h : l.filterAuxM f acc = .ok kept) {x : α} :
    x ∈ kept ↔ x ∈ acc ∨ x ∈ l ∧ f x = .ok true := by
  induction l generalizing acc with
  | nil =>
    cases h
    simp
  | cons a l ih =>
    rw [List.filterAuxM] at h
    obtain ⟨b, ha, h⟩ := bind_eq_ok_iff.mp h
    rw [ih h]
    cases b with
    | true =>
      have hx : x = a → f x = .ok true := fun hx => hx ▸ ha
      simp only [cond_true, List.mem_cons]
      tauto
    | false =>
      have hx : x = a → f x ≠ .ok true := by
        rintro rfl htrue
        cases ha.symm.trans htrue
      simp only [cond_false, List.mem_cons]
      tauto

theorem mem_filterM_iff {kept : List α} (h : l.filterM f = .ok kept) {x : α} :
    x ∈ kept ↔ x ∈ l ∧ f x = .ok true := by
  rw [List.filterM] at h
  obtain ⟨reversed, haux, h⟩ := bind_eq_ok_iff.mp h
  cases h
  rw [List.mem_reverse, mem_filterAuxM_iff haux]
  simp

theorem exists_of_filterAuxM {acc kept : List α} (h : l.filterAuxM f acc = .ok kept) {x : α}
    (hx : x ∈ l) : ∃ b, f x = .ok b := by
  induction l generalizing acc with
  | nil => cases hx
  | cons a l ih =>
    rw [List.filterAuxM] at h
    obtain ⟨b, ha, h⟩ := bind_eq_ok_iff.mp h
    rcases List.mem_cons.mp hx with rfl | hx
    · exact ⟨b, ha⟩
    · exact ih h hx

theorem exists_of_filterM {kept : List α} (h : l.filterM f = .ok kept) {x : α} (hx : x ∈ l) :
    ∃ b, f x = .ok b := by
  rw [List.filterM] at h
  obtain ⟨reversed, haux, -⟩ := bind_eq_ok_iff.mp h
  exact exists_of_filterAuxM haux hx

theorem filterAuxM_eq_error {acc : List α} (h : l.filterAuxM f acc = .error e) :
    ∃ x ∈ l, f x = .error e := by
  induction l generalizing acc with
  | nil => cases h
  | cons a l ih =>
    rw [List.filterAuxM] at h
    rcases bind_eq_error_iff.mp h with ha | ⟨b, -, h⟩
    · exact ⟨a, List.mem_cons_self, ha⟩
    · obtain ⟨x, hx, hfx⟩ := ih h
      exact ⟨x, List.mem_cons_of_mem a hx, hfx⟩

theorem filterM_eq_error (h : l.filterM f = .error e) : ∃ x ∈ l, f x = .error e := by
  rw [List.filterM] at h
  rcases bind_eq_error_iff.mp h with haux | ⟨reversed, -, h⟩
  · exact filterAuxM_eq_error haux
  · cases h

end FluentFixtures
