import FluentFixtures.Config.File
import FluentFixtures.Proofs.Faults

/-!
# Faults of settings

The settings are looked at in order, and the first that cannot be read is why
there are none: `settingsOfEntries_eq_error_iff`. Each kind of setting has its own
faults, so a fault tells which setting it is of.
-/

namespace FluentFixtures.Config

variable {entries : List (Key × Value)} {v : Value} {e : LoadError}

/-! ## One setting -/

theorem partsOf_str (t : Text) : partsOf (.scalar (.str t)) = .ok (t.map fun c => .str [c]) := by
  cases t <;> rfl

theorem partsOf_list (items : List Value) : partsOf (.list items) = items.mapM keyOf := by
  cases items <;> rfl

theorem partsOf_mapping (entries : List (Key × Value)) :
    partsOf (.mapping entries) = .ok (entries.map Prod.fst) := by
  cases entries <;> rfl

theorem positionalOf_mapping (entries : List (Key × Value)) : positionalOf (.mapping entries) =
    entries.mapM fun entry => (keySetOf entry.2).map fun types => (entry.1, types) := by
  cases entries <;> rfl

theorem keyOf_error (h : keyOf v = .error e) : ∃ kind, e = .noKey kind := by
  fun_induction keyOf v with
  | case5 a b hfirst hsecond =>
    rcases bind_eq_error_iff.mp h with h | ⟨first, -, h⟩
    · exact hfirst h
    · rcases bind_eq_error_iff.mp h with h | ⟨second, -, h⟩
      · exact hsecond h
      · cases h
  | case6 v =>
    cases h
    exact ⟨_, rfl⟩
  | _ => cases h

theorem partsOf_error (h : partsOf v = .error e) : ∃ kind, e = .noParts kind ∨ e = .noKey kind := by
  have hkeys {items : List Value} (h : items.mapM keyOf = .error e) : ∃ kind, e = .noKey kind := by
    obtain ⟨item, -, hitem⟩ := exists_of_mapM_error h
    exact keyOf_error hitem
  unfold partsOf at h
  split at h
  · cases h
  · cases v with
    | list items => exact (hkeys h).imp fun _ => .inr
    | pair a b => exact (hkeys h).imp fun _ => .inr
    | scalar s =>
      cases s <;> cases h
      all_goals exact ⟨_, .inl rfl⟩
    | _ =>
      cases h
      all_goals exact ⟨_, .inl rfl⟩

theorem keySetOf_error (h : keySetOf v = .error e) :
    ∃ kind, e = .noParts kind ∨ e = .noKey kind :=
  partsOf_error (map_eq_error_iff.mp h)

theorem positionalOf_error (h : positionalOf v = .error e) :
    (∃ kind, e = .noParts kind ∨ e = .noKey kind) ∨
      ∃ kind, e = .noEntries kind ∧ v.isEmpty = false ∧ ∀ entries, v ≠ .mapping entries := by
  unfold positionalOf at h
  split at h
  · cases h
  · next hfull =>
    split at h
    · next entries =>
      obtain ⟨entry, -, hentry⟩ := exists_of_mapM_error h
      exact .inl (keySetOf_error (map_eq_error_iff.mp hentry))
    · next hother =>
      cases h
      exact .inr ⟨_, rfl, by simpa using hfull, fun entries => hother entries⟩

theorem positionalOf_of_other (hfull : v.isEmpty = false)
    (hother : ∀ entries, v ≠ .mapping entries) :
    positionalOf v = .error (.noEntries v.kind) := by
  unfold positionalOf
  rw [hfull]
  cases v with
  | mapping entries => exact absurd rfl (hother entries)
  | _ => rfl

theorem integerOf_error {digit? : CodePoint → Option Nat} {isBlank : CodePoint → Bool} {t : Text}
    {fault e : IndentError} (h : integerOf digit? isBlank fault t = .error e) :
    e = fault ∨ ∃ digits, e = .tooLong digits := by
  unfold integerOf at h
  simp only at h
  split at h
  · cases h
    exact .inl rfl
  · split at h
    · cases h
      exact .inr ⟨_, rfl⟩
    · split at h
      · cases h
        exact .inl rfl
      · cases h

theorem indentOf_eq_infinite_iff : indentOf v = .error .infinite ↔
    ∃ negative, v = .scalar (.double (.infinite negative)) := by
  constructor
  · intro h
    unfold indentOf at h
    split at h
    all_goals try cases h
    · exact ⟨_, rfl⟩
    · rcases integerOf_error h with h | ⟨_, h⟩ <;> cases h
    · rcases integerOf_error h with h | ⟨_, h⟩ <;> cases h
  · rintro ⟨negative, rfl⟩
    rfl

/-! ## All settings -/

def CanRead {α : Type} (entries : List (Key × Value)) (name : Text)
    (read : Value → Except LoadError α) : Prop :=
  ∀ v, setting? entries name = some v → ∃ a, read v = .ok a

def CannotRead {α : Type} (entries : List (Key × Value)) (name : Text)
    (read : Value → Except LoadError α) (e : LoadError) : Prop :=
  ∃ v, setting? entries name = some v ∧ read v = .error e

theorem settingOr_bind_eq_error_iff {α β : Type} {name : Text} {default : α}
    {read : Value → Except LoadError α} {next : α → Except LoadError β} {P : Prop}
    (hnext : ∀ a, next a = .error e ↔ P) :
    settingOr entries name default read >>= next = .error e ↔
      CannotRead entries name read e ∨ CanRead entries name read ∧ P := by
  unfold settingOr CannotRead CanRead
  cases hsetting : setting? entries name with
  | none =>
    refine (hnext default).trans ?_
    simp
  | some v =>
    cases hread : read v with
    | error cause => simp [hread, bind, Except.bind]
    | ok a =>
      have hbind : (Except.ok a >>= next) = next a := rfl
      simp [hread, hbind, hnext]

/-- Settings cannot be read for the fault of the first of them, in order, that has one. -/
theorem settingsOfEntries_eq_error_iff : settingsOfEntries entries = .error e ↔
    CannotRead entries unambiguousKey keySetOf e ∨ CanRead entries unambiguousKey keySetOf ∧
    (CannotRead entries exemptKey keySetOf e ∨ CanRead entries exemptKey keySetOf ∧
    (CannotRead entries positionalKey positionalOf e ∨ CanRead entries positionalKey positionalOf ∧
      CannotRead entries indentKey (fun v => (indentOf v).mapError .indent) e)) := by
  unfold settingsOfEntries
  refine settingOr_bind_eq_error_iff fun unambiguous => ?_
  refine settingOr_bind_eq_error_iff fun exempt => ?_
  refine settingOr_bind_eq_error_iff fun positional => ?_
  -- Blank lines and the pattern are given by any value.
  refine (settingOr_bind_eq_error_iff fun keepBlankLines => settingOr_bind_eq_error_iff
    fun indent => settingOr_bind_eq_error_iff (P := False) fun pattern => by simp).trans ?_
  have hblank : ¬ CannotRead entries keepBlankLinesKey (fun v => .ok !v.isEmpty) e := by
    rintro ⟨v, -, h⟩
    cases h
  have hpattern : ¬ CannotRead entries patternKey .ok e := by
    rintro ⟨v, -, h⟩
    cases h
  have hreadable : CanRead entries keepBlankLinesKey fun v => .ok !v.isEmpty := fun _ _ => ⟨_, rfl⟩
  simp only [hblank, hpattern, hreadable, false_or, true_and, and_false, or_false]

theorem unknownKeysError_cases (keys : List Key) :
    unknownKeysError keys = .unorderedKeys ∨ (∃ kind, unknownKeysError keys = .unknownKeyKind kind) ∨
      ∃ names, unknownKeysError keys = .unknownKeys names := by
  unfold unknownKeysError
  split
  · exact .inl rfl
  · split
    · exact .inr (.inl ⟨_, rfl⟩)
    · exact .inr (.inr ⟨_, rfl⟩)

theorem settingsOf_mapping (hkeys : ∀ entry ∈ entries, isSettingKey entry.1 = true) :
    settingsOf (.mapping entries) = settingsOfEntries entries := by
  unfold settingsOf
  cases entries with
  | nil => rfl
  | cons entry rest =>
    have hknown : ((entry :: rest).map Prod.fst).filter (fun key => !isSettingKey key) = [] := by
      refine List.filter_eq_nil_iff.mpr fun key hkey => ?_
      obtain ⟨entry, hentry, rfl⟩ := List.mem_map.mp hkey
      simp [hkeys entry hentry]
    have hfull : (Value.mapping (entry :: rest)).isEmpty = false := rfl
    simp only [hfull, hknown, Bool.false_eq_true, if_false]

/-- A value gives no settings because it is no mapping, because a key of it names no setting, or
for the fault of a setting. -/
theorem settingsOf_error_cases (h : settingsOf v = .error e) :
    (∃ kind, e = .noMapping kind) ∨ (∃ keys, e = unknownKeysError keys) ∨
      ∃ entries, v = .mapping entries ∧ (∀ entry ∈ entries, isSettingKey entry.1 = true) ∧
        settingsOfEntries entries = .error e := by
  unfold settingsOf at h
  split at h
  · cases h
  · cases v with
    | mapping entries =>
      simp only at h
      split at h
      · next hknown =>
        refine .inr (.inr ⟨entries, rfl, fun entry hentry => ?_, h⟩)
        have hkey := List.filter_eq_nil_iff.mp hknown entry.1 (List.mem_map_of_mem hentry)
        simpa using hkey
      · cases h
        exact .inr (.inl ⟨_, rfl⟩)
    | _ =>
      cases h
      exact .inl ⟨_, rfl⟩

end FluentFixtures.Config
