import FluentFixtures.Proofs.Config.Load
import FluentFixtures.Proofs.Rules.Order

/-!
# Settings entry by entry

A mapping gives what its entries give alone: each entry one setting, and those
without an entry their defaults. If an entry alone gives none, neither does the
mapping, for the fault of the first such entry in the order of the settings. Keys
that name no setting are refused before that, whatever their values are. In which
order the entries stand never matters: `settingsOf_entrywise`.
-/

namespace FluentFixtures.Config

inductive SettingName where
  | unambiguous
  | exempt
  | positional
  | keepBlankLines
  | indent
  | pattern
  deriving DecidableEq

namespace SettingName

def text : SettingName → Text
  | unambiguous => unambiguousKey
  | exempt => exemptKey
  | positional => positionalKey
  | keepBlankLines => keepBlankLinesKey
  | indent => indentKey
  | pattern => patternKey

/-- The names in the order in which their values can be found at fault. -/
def faultOrder : List SettingName := [unambiguous, exempt, positional, indent]

/-- Whether two settings of runs are the same under a name. -/
def Agree : SettingName → Settings → Settings → Prop
  | unambiguous, s, s' => s.rules.unambiguous = s'.rules.unambiguous
  | exempt, s, s' => s.rules.exempt = s'.rules.exempt
  | positional, s, s' => s.rules.positional = s'.rules.positional
  | keepBlankLines, s, s' => s.keepBlankLines = s'.keepBlankLines
  | indent, s, s' => s.indent = s'.indent
  | pattern, s, s' => s.pattern = s'.pattern

def alone (name : SettingName) (v : Value) : Value := .mapping [(.str name.text, v)]

/-- The fault of a value under a name. -/
def fault? : SettingName → Value → Option LoadError
  | unambiguous => fun v => FluentFixtures.fault? (keySetOf v)
  | exempt => fun v => FluentFixtures.fault? (keySetOf v)
  | positional => fun v => FluentFixtures.fault? (positionalOf v)
  | indent => fun v => FluentFixtures.fault? ((indentOf v).mapError .indent)
  | keepBlankLines => fun _ => none
  | pattern => fun _ => none

theorem text_injective : Function.Injective text := by
  intro name other h
  cases name <;> cases other <;> first | rfl | exact absurd h (by decide)

theorem isSettingKey_iff {key : Key} :
    isSettingKey key = true ↔ ∃ name : SettingName, key = .str name.text := by
  constructor
  · intro h
    obtain ⟨t, ht, hkey⟩ := List.any_eq_true.mp h
    rw [decide_eq_true_eq] at hkey
    simp only [settingKeys, List.mem_cons, List.not_mem_nil, or_false] at ht
    rcases ht with rfl | rfl | rfl | rfl | rfl | rfl
    · exact ⟨unambiguous, hkey⟩
    · exact ⟨exempt, hkey⟩
    · exact ⟨positional, hkey⟩
    · exact ⟨keepBlankLines, hkey⟩
    · exact ⟨indent, hkey⟩
    · exact ⟨pattern, hkey⟩
  · rintro ⟨name, rfl⟩
    cases name <;> rfl

end SettingName

variable {d d' : KeyMap Value} {entries : List (Key × Value)} {name other : SettingName}
  {v : Value} {s s' : Settings} {e : LoadError}

/-! ## Looking up a setting -/

theorem setting?_eq_get? (t : Text) : setting? entries t = KeyMap.get? (.str t) entries := by
  have hkey : (fun entry : Key × Value => decide (entry.1 = .str t)) =
      fun entry => Key.same (.str t) entry.1 := by
    funext entry
    rw [Bool.eq_iff_iff, Key.same_iff_equals, Key.equals_str_iff, decide_eq_true_eq]
  rw [setting?, hkey]
  rfl

theorem setting?_cons (entry : Key × Value) (t : Text) : setting? (entry :: entries) t =
    if entry.1 = .str t then some entry.2 else setting? entries t := by
  by_cases hkey : entry.1 = .str t <;> simp [setting?, hkey]

theorem mem_of_setting? {t : Text} (h : setting? entries t = some v) : (.str t, v) ∈ entries := by
  obtain ⟨entry, hfind, rfl⟩ := Option.map_eq_some_iff.mp h
  have hkey : entry.1 = .str t := by simpa using List.find?_some hfind
  rw [← hkey]
  exact List.mem_of_find?_eq_some hfind

theorem setting?_eq_some_iff (h : d.Keyed) {t : Text} :
    setting? d t = some v ↔ (.str t, v) ∈ d := by
  refine ⟨mem_of_setting?, fun hmem => ?_⟩
  induction d with
  | nil => cases hmem
  | cons entry d ih =>
    obtain ⟨hfirst, hrest⟩ := List.pairwise_cons.mp h
    rw [setting?_cons]
    rcases List.mem_cons.mp hmem with rfl | hmem
    · rw [if_pos rfl]
    · rw [if_neg, ih hrest hmem]
      intro hkey
      have hnan := hfirst _ hmem
      rw [hkey] at hnan
      exact hnan (Key.equals_self _)

theorem setting?_eq_none_iff (h : d.Keyed) {t : Text} :
    setting? d t = none ↔ ∀ v, (.str t, v) ∉ d := by
  rw [Option.eq_none_iff_forall_ne_some]
  exact forall_congr' fun v => not_congr (setting?_eq_some_iff h)

theorem setting?_single : setting? [(.str name.text, v)] other.text =
    if name = other then some v else none := by
  have hkey : Key.str name.text = .str other.text ↔ name = other :=
    ⟨fun h => SettingName.text_injective (Scalar.str.inj (Key.scalar.inj h)), fun h => by rw [h]⟩
  by_cases h : name = other <;> simp [setting?, hkey, h]

/-! ## Faults -/

theorem cannotRead_iff {α : Type} {t : Text} {read : Value → Except LoadError α} :
    CannotRead entries t read e ↔
      ((setting? entries t).bind fun v => FluentFixtures.fault? (read v)) = some e := by
  simp only [CannotRead, Option.bind_eq_some_iff, fault?_eq_some_iff]

theorem canRead_iff {α : Type} {t : Text} {read : Value → Except LoadError α} :
    CanRead entries t read ↔
      ((setting? entries t).bind fun v => FluentFixtures.fault? (read v)) = none := by
  rw [Option.bind_eq_none_iff]
  refine forall₂_congr fun v _ => ?_
  cases read v <;> simp [FluentFixtures.fault?]

/-- The fault of settings is the first of the faults of their values. -/
theorem fault?_settingsOfEntries (entries : List (Key × Value)) :
    FluentFixtures.fault? (settingsOfEntries entries) =
      SettingName.faultOrder.findSome? fun name => (setting? entries name.text).bind name.fault? := by
  refine Option.ext fun e => ?_
  rw [fault?_eq_some_iff, settingsOfEntries_eq_error_iff]
  simp only [cannotRead_iff, canRead_iff, SettingName.faultOrder, List.findSome?_cons,
    List.findSome?_nil, SettingName.text, SettingName.fault?]
  cases (setting? entries unambiguousKey).bind fun v => FluentFixtures.fault? (keySetOf v) with
  | some cause => simp
  | none =>
    cases (setting? entries exemptKey).bind fun v => FluentFixtures.fault? (keySetOf v) with
    | some cause => simp
    | none =>
      cases (setting? entries positionalKey).bind fun v => FluentFixtures.fault? (positionalOf v) with
      | some cause => simp
      | none =>
        cases (setting? entries indentKey).bind fun v =>
            FluentFixtures.fault? ((indentOf v).mapError LoadError.indent) <;> simp

theorem settingsOf_alone (name : SettingName) (v : Value) :
    settingsOf (name.alone v) = settingsOfEntries [(.str name.text, v)] := by
  refine settingsOf_mapping fun entry hentry => ?_
  obtain rfl := List.mem_singleton.mp hentry
  exact SettingName.isSettingKey_iff.mpr ⟨name, rfl⟩

theorem fault?_alone (name : SettingName) (v : Value) :
    FluentFixtures.fault? (settingsOf (name.alone v)) = name.fault? v := by
  have hfault (other : SettingName) : (if name = other then some v else none).bind other.fault? =
      if name = other then name.fault? v else none := by
    split
    · next h => rw [h]; rfl
    · rfl
  rw [settingsOf_alone, fault?_settingsOfEntries]
  simp only [setting?_single, hfault]
  -- The names that can be at fault have a place in the order; the others have no fault.
  cases name with
  | keepBlankLines => rfl
  | pattern => rfl
  | _ =>
    simp only [SettingName.faultOrder, List.findSome?_cons, List.findSome?_nil, reduceCtorEq,
      if_true, if_false]
    split
    · next h => exact h.symm
    · next h => exact h.symm

/-! ## Values -/

/-- Whether a name has what its entry gives, or its default. -/
def SettingName.Reads : SettingName → List (Key × Value) → Settings → Prop
  | unambiguous, entries, s =>
    settingOr entries unambiguousKey Settings.default.rules.unambiguous keySetOf =
      .ok s.rules.unambiguous
  | exempt, entries, s =>
    settingOr entries exemptKey Settings.default.rules.exempt keySetOf = .ok s.rules.exempt
  | positional, entries, s =>
    settingOr entries positionalKey Settings.default.rules.positional positionalOf =
      .ok s.rules.positional
  | keepBlankLines, entries, s =>
    settingOr entries keepBlankLinesKey Settings.default.keepBlankLines (fun v => .ok !v.isEmpty) =
      .ok s.keepBlankLines
  | indent, entries, s =>
    settingOr entries indentKey Settings.default.indent (fun v => (indentOf v).mapError .indent) =
      .ok s.indent
  | pattern, entries, s => settingOr entries patternKey Settings.default.pattern .ok = .ok s.pattern

theorem reads_of_settingsOfEntries (h : settingsOfEntries entries = .ok s) (name : SettingName) :
    name.Reads entries s := by
  unfold settingsOfEntries at h
  obtain ⟨unambiguous, hunambiguous, h⟩ := bind_eq_ok_iff.mp h
  obtain ⟨exempt, hexempt, h⟩ := bind_eq_ok_iff.mp h
  obtain ⟨positional, hpositional, h⟩ := bind_eq_ok_iff.mp h
  obtain ⟨keepBlankLines, hkeepBlankLines, h⟩ := bind_eq_ok_iff.mp h
  obtain ⟨indent, hindent, h⟩ := bind_eq_ok_iff.mp h
  obtain ⟨pattern, hpattern, h⟩ := bind_eq_ok_iff.mp h
  cases h
  cases name with
  | unambiguous => exact hunambiguous
  | exempt => exact hexempt
  | positional => exact hpositional
  | keepBlankLines => exact hkeepBlankLines
  | indent => exact hindent
  | pattern => exact hpattern

theorem eq_of_settingOr {α : Type} {entries' : List (Key × Value)} {t : Text} {default a a' : α}
    {read : Value → Except LoadError α} (hsetting : setting? entries t = setting? entries' t)
    (h : settingOr entries t default read = .ok a)
    (h' : settingOr entries' t default read = .ok a') : a = a' := by
  rw [settingOr, hsetting] at h
  exact Except.ok.inj (h.symm.trans h')

theorem agree_of_reads {entries' : List (Key × Value)}
    (hsetting : setting? entries name.text = setting? entries' name.text)
    (h : name.Reads entries s) (h' : name.Reads entries' s') : name.Agree s s' := by
  cases name <;> exact eq_of_settingOr hsetting h h'

theorem settingsOfEntries_congr {entries' : List (Key × Value)}
    (h : ∀ t, setting? entries t = setting? entries' t) :
    settingsOfEntries entries = settingsOfEntries entries' := by
  simp only [settingsOfEntries, settingOr, h]

/-! ## Keys that name no setting -/

def NamesNothing (d : KeyMap Value) (key : Key) : Prop :=
  key ∈ d.map Prod.fst ∧ ∀ name : SettingName, key ≠ .str name.text

def unknownKeys (d : KeyMap Value) : List Key :=
  (d.map Prod.fst).filter fun key => !isSettingKey key

theorem mem_unknownKeys {key : Key} : key ∈ unknownKeys d ↔ NamesNothing d key := by
  rw [unknownKeys, List.mem_filter, NamesNothing, Bool.not_eq_true', Bool.eq_false_iff, ne_eq,
    SettingName.isSettingKey_iff, not_exists]

theorem pairwise_unknownKeys (h : d.Keyed) :
    (unknownKeys d).Pairwise fun a b => a.Equals b → a.HoldsNaN := by
  have hkeys : (d.map Prod.fst).Pairwise fun a b => a.Equals b → a.HoldsNaN :=
    List.pairwise_map.mpr h
  exact hkeys.filter _

/-- Keys that name no setting are refused, whatever stands under them. -/
theorem settingsOf_of_namesNothing {key : Key} (h : NamesNothing d key) :
    settingsOf (.mapping d) = .error (unknownKeysError (unknownKeys d)) := by
  have hmem := mem_unknownKeys.mpr h
  have hfull : (Value.mapping d).isEmpty = false := by
    cases d with
    | nil => exact absurd h.1 List.not_mem_nil
    | cons entry d => rfl
  cases hkeys : unknownKeys d with
  | nil => rw [hkeys] at hmem; cases hmem
  | cons first rest =>
    have hfilter : (d.map Prod.fst).filter (fun key => !isSettingKey key) = first :: rest := hkeys
    rw [settingsOf, hfull, if_neg Bool.false_ne_true]
    simp only [hfilter]

theorem unknownKeysError_map_str (names : List Text) : unknownKeysError (names.map .str) =
    .unknownKeys (names.mergeSort fun s t => (Text.compare s t).isLE) := by
  have hstrings (l : List Text) : (l.map Key.str).find? (fun key => !key.isString) = none := by
    simp [Key.isString, Scalar.isString]
  rw [unknownKeysError, KeySet.sort?_map_str]
  simp only [hstrings, List.map_map]
  exact congrArg LoadError.unknownKeys (List.map_id _)

/-- Of keys that are not all names, one that is none is told, or that they have no order. -/
theorem unknownKeysError_of_other {keys : List Key} {key : Key} (hkey : key ∈ keys)
    (hother : key.isString = false) : unknownKeysError keys = .unorderedKeys ∨
      ∃ first ∈ keys, first.isString = false ∧ unknownKeysError keys = .unknownKeyKind first.kind := by
  unfold unknownKeysError
  cases hsort : KeySet.sort? keys with
  | none => exact .inl rfl
  | some sorted =>
    have hperm := KeySet.perm_of_sort? hsort
    cases hfind : sorted.find? fun key => !key.isString with
    | none =>
      have hstring := List.find?_eq_none.mp hfind key (hperm.mem_iff.mpr hkey)
      simp [hother] at hstring
    | some first =>
      have hfirst : first.isString = false := by simpa using List.find?_some hfind
      refine .inr ⟨first, hperm.mem_iff.mp (List.mem_of_find?_eq_some hfind), hfirst, ?_⟩
      simp only [hfind]

/-- Whether a mapping is refused for its keys, whatever their values are, and the error says of which
keys. -/
structure RefusedForKeys (d : KeyMap Value) (e : LoadError) : Prop where
  unread : ∀ d' : KeyMap Value, d'.map Prod.fst = d.map Prod.fst → settingsOf (.mapping d') = .error e
  /-- Names are all listed, strictly upwards. -/
  listed : (∀ key, NamesNothing d key → key.isString = true) →
    e.errorClass = .value ∧ ∃ names, e = .unknownKeys names ∧
    e.message? = some (("Unknown config key(s): " : Text) ++ Text.joinWith (", " : Text) names) ∧
    (names.Pairwise fun s t => Text.compare s t = .lt) ∧ ∀ t, t ∈ names ↔ NamesNothing d (.str t)
  /-- Keys of which one is no name are not listed. -/
  unlisted : ∀ key, NamesNothing d key → key.isString = false →
    e.errorClass = .type ∧ (e = .unorderedKeys ∨
      ∃ first, NamesNothing d first ∧ first.isString = false ∧ e = .unknownKeyKind first.kind)

theorem refusedForKeys_of_namesNothing (hkeyed : d.Keyed) {key : Key}
    (h : NamesNothing d key) : RefusedForKeys d (unknownKeysError (unknownKeys d)) := by
  constructor
  case unread =>
    intro d' hkeys
    have h' : NamesNothing d' key := by rwa [NamesNothing, hkeys]
    rw [settingsOf_of_namesNothing h', unknownKeys, hkeys]
    rfl
  case listed =>
    intro hstrings
    obtain ⟨names, hnames⟩ := Key.exists_names fun key hkey => hstrings key (mem_unknownKeys.mp hkey)
    have hnodup : names.Nodup := by
      have hpairwise := pairwise_unknownKeys hkeyed
      rw [hnames, List.pairwise_map] at hpairwise
      refine hpairwise.imp fun hnan heq => hnan ?_
      rw [heq]
      exact Key.equals_self _
    rw [hnames, unknownKeysError_map_str]
    refine ⟨rfl, _, rfl, rfl, pairwise_mergeSort_lt hnodup, fun t => ?_⟩
    rw [List.mem_mergeSort, ← mem_unknownKeys, hnames]
    simp
  case unlisted =>
    intro key hkey hother
    rcases unknownKeysError_of_other (mem_unknownKeys.mpr hkey) hother with herror | hfirst
    · exact ⟨by rw [herror]; rfl, .inl herror⟩
    · obtain ⟨first, hfirst, hother, herror⟩ := hfirst
      exact ⟨by rw [herror]; rfl, .inr ⟨first, mem_unknownKeys.mp hfirst, hother, herror⟩⟩

/-! ## Entry by entry -/

/-- Whether a mapping gives the settings that its entries give alone, and has the first fault of
theirs. -/
structure Entrywise (d : KeyMap Value) : Prop where
  loads : (∃ s, settingsOf (.mapping d) = .ok s) ↔
    ∀ entry ∈ d, ∃ s, settingsOf (.mapping [entry]) = .ok s
  given : ∀ s (name : SettingName) v, settingsOf (.mapping d) = .ok s → (.str name.text, v) ∈ d →
    ∃ s', settingsOf (name.alone v) = .ok s' ∧ name.Agree s s'
  left_out : ∀ s (name : SettingName), settingsOf (.mapping d) = .ok s →
    (∀ v, (.str name.text, v) ∉ d) → name.Agree s .default
  fault : ∀ e, settingsOf (.mapping d) = .error e ↔ ∃ before name after v,
    SettingName.faultOrder = before ++ name :: after ∧ (.str name.text, v) ∈ d ∧
      settingsOf (name.alone v) = .error e ∧
      ∀ earlier ∈ before, ∀ w, (.str earlier.text, w) ∈ d → ∃ s, settingsOf (earlier.alone w) = .ok s

theorem alone_ok_iff : (∃ s, settingsOf (name.alone v) = .ok s) ↔ name.fault? v = none := by
  rw [exists_ok_iff, fault?_alone]

theorem alone_error_iff : settingsOf (name.alone v) = .error e ↔ name.fault? v = some e := by
  rw [← fault?_eq_some_iff, fault?_alone]

section Known

variable (hkeyed : d.Keyed) (hknown : ∀ key, ¬ NamesNothing d key)

include hknown

theorem exists_name_of_mem {entry : Key × Value} (h : entry ∈ d) :
    ∃ name : SettingName, entry = (.str name.text, entry.2) := by
  by_contra hnone
  refine hknown entry.1 ⟨List.mem_map_of_mem h, fun name hkey => hnone ⟨name, ?_⟩⟩
  rw [← hkey]

theorem settingsOf_of_known : settingsOf (.mapping d) = settingsOfEntries d := by
  refine settingsOf_mapping fun entry hentry => SettingName.isSettingKey_iff.mpr ?_
  obtain ⟨name, hname⟩ := exists_name_of_mem hknown hentry
  exact ⟨name, congrArg Prod.fst hname⟩

include hkeyed

/-- A mapping gives settings if each entry does alone. -/
theorem exists_settings_iff : (∃ s, settingsOf (.mapping d) = .ok s) ↔
    ∀ entry ∈ d, ∃ s, settingsOf (.mapping [entry]) = .ok s := by
  rw [settingsOf_of_known hknown, exists_ok_iff, fault?_settingsOfEntries,
    List.findSome?_eq_none_iff]
  constructor
  · intro h entry hentry
    obtain ⟨name, hname⟩ := exists_name_of_mem hknown hentry
    rw [hname] at hentry ⊢
    refine alone_ok_iff.mpr ?_
    by_cases hfaulty : name ∈ SettingName.faultOrder
    · exact Option.bind_eq_none_iff.mp (h name hfaulty) _ ((setting?_eq_some_iff hkeyed).mpr hentry)
    · cases name <;> first | rfl | exact absurd (by decide) hfaulty
  · intro h name _
    refine Option.bind_eq_none_iff.mpr fun v hv => alone_ok_iff.mp ?_
    exact h _ ((setting?_eq_some_iff hkeyed).mp hv)

/-- The fault of a mapping is the first that an entry has alone. -/
theorem settingsOf_eq_error_iff : settingsOf (.mapping d) = .error e ↔ ∃ before name after v,
    SettingName.faultOrder = before ++ name :: after ∧ (.str name.text, v) ∈ d ∧
      settingsOf (name.alone v) = .error e ∧ ∀ earlier ∈ before, ∀ w, (.str earlier.text, w) ∈ d →
        ∃ s, settingsOf (earlier.alone w) = .ok s := by
  rw [settingsOf_of_known hknown, ← fault?_eq_some_iff, fault?_settingsOfEntries,
    List.findSome?_eq_some_iff]
  constructor
  · rintro ⟨before, name, after, horder, hname, hbefore⟩
    obtain ⟨v, hv, hfault⟩ := Option.bind_eq_some_iff.mp hname
    refine ⟨before, name, after, v, horder, (setting?_eq_some_iff hkeyed).mp hv,
      alone_error_iff.mpr hfault, fun earlier hearlier w hw => alone_ok_iff.mpr ?_⟩
    exact Option.bind_eq_none_iff.mp (hbefore earlier hearlier) w
      ((setting?_eq_some_iff hkeyed).mpr hw)
  · rintro ⟨before, name, after, v, horder, hv, hfault, hbefore⟩
    refine ⟨before, name, after, horder, Option.bind_eq_some_iff.mpr ⟨v,
      (setting?_eq_some_iff hkeyed).mpr hv, alone_error_iff.mp hfault⟩, fun earlier hearlier =>
        Option.bind_eq_none_iff.mpr fun w hw => alone_ok_iff.mp ?_⟩
    exact hbefore earlier hearlier w ((setting?_eq_some_iff hkeyed).mp hw)

theorem entrywise_of_known : Entrywise d where
  loads := exists_settings_iff hkeyed hknown
  fault e := settingsOf_eq_error_iff hkeyed hknown
  given s name v hs hv := by
    obtain ⟨s', hs'⟩ := (exists_settings_iff hkeyed hknown).mp ⟨s, hs⟩ _ hv
    have hsetting : setting? d name.text = setting? [(.str name.text, v)] name.text := by
      rw [(setting?_eq_some_iff hkeyed).mpr hv, setting?_single, if_pos rfl]
    have hreads := reads_of_settingsOfEntries ((settingsOf_of_known hknown).symm.trans hs) name
    have hreads' := reads_of_settingsOfEntries ((settingsOf_alone name v).symm.trans hs') name
    exact ⟨s', hs', agree_of_reads hsetting hreads hreads'⟩
  left_out s name hs hnone := by
    have hsetting : setting? d name.text = setting? [] name.text :=
      (setting?_eq_none_iff hkeyed).mpr hnone
    have hreads := reads_of_settingsOfEntries ((settingsOf_of_known hknown).symm.trans hs) name
    have hdefault : settingsOfEntries [] = .ok .default := rfl
    exact agree_of_reads hsetting hreads (reads_of_settingsOfEntries hdefault name)

end Known

/-- The order of the entries does not matter, as long as each key equals itself. -/
theorem settingsOf_perm (hkeyed : d.Keyed) (hnan : ∀ entry ∈ d, ¬ entry.1.HoldsNaN)
    (h : d.Perm d') : settingsOf (.mapping d') = settingsOf (.mapping d) := by
  have hdistinct := hkeyed.distinct hnan
  have hkeys : (d.map Prod.fst).Perm (d'.map Prod.fst) := h.map Prod.fst
  have hsame (key : Key) : NamesNothing d' key ↔ NamesNothing d key := by
    rw [NamesNothing, NamesNothing, hkeys.mem_iff]
  by_cases hknown : ∀ key, ¬ NamesNothing d key
  · have hknown' : ∀ key, ¬ NamesNothing d' key := fun key hkey => hknown key ((hsame key).mp hkey)
    rw [settingsOf_of_known hknown, settingsOf_of_known hknown']
    refine settingsOfEntries_congr fun t => ?_
    rw [setting?_eq_get?, setting?_eq_get?, hdistinct.get?_perm h]
  · obtain ⟨key, hkey⟩ := not_forall_not.mp hknown
    have hnan' : ∀ key ∈ unknownKeys d, ¬ key.HoldsNaN := by
      intro key hmem
      obtain ⟨entry, hentry, rfl⟩ := List.mem_map.mp (mem_unknownKeys.mp hmem).1
      exact hnan entry hentry
    have hpairwise : (unknownKeys d).Pairwise fun a b => ¬ a.Equals b :=
      (pairwise_unknownKeys hkeyed).imp_of_mem fun {a b} ha _ hequal hequals =>
        hnan' a ha (hequal hequals)
    have hsort : KeySet.sort? (unknownKeys d') = KeySet.sort? (unknownKeys d) :=
      KeySet.sort?_perm (hkeys.filter _) hpairwise hnan'
    rw [settingsOf_of_namesNothing hkey, settingsOf_of_namesNothing ((hsame key).mpr hkey),
      unknownKeysError, unknownKeysError, hsort]

/-- A mapping with a key that names no setting is refused for its keys, without a look at a value.
Any other gives the settings that its entries give alone, and defaults for what has no entry; if one
of them alone has a fault, the mapping has the first such fault in the order of the settings. The
order of the entries does not matter, but for keys that do not equal themselves. -/
theorem settingsOf_entrywise (hkeyed : d.Keyed) :
    (∀ key, NamesNothing d key →
      ∃ e, settingsOf (.mapping d) = .error e ∧ RefusedForKeys d e) ∧
    ((∀ key, ¬ NamesNothing d key) → Entrywise d) ∧
    ((∀ entry ∈ d, ¬ entry.1.HoldsNaN) →
      ∀ d', d.Perm d' → settingsOf (.mapping d') = settingsOf (.mapping d)) := by
  refine ⟨fun key hkey => ?_, entrywise_of_known hkeyed, fun hnan d' => settingsOf_perm hkeyed hnan⟩
  exact ⟨_, settingsOf_of_namesNothing hkey, refusedForKeys_of_namesNothing hkeyed hkey⟩

/-- Positional types that are a list, an indent that is a word, and exempt keys that are a number. -/
def threeFaults : KeyMap Value :=
  [(.str indentKey, .scalar (.str "a")), (.str positionalKey, .list [.scalar (.int 1)]),
    (.str exemptKey, .scalar (.int 1))]

/-- Of three faults, that of the exempt keys comes first. -/
theorem settingsOf_entrywise_threeFaults :
    threeFaults.Keyed ∧ settingsOf (.mapping threeFaults) = .error (.noParts .int) := by
  have hdistinct : threeFaults.Distinct := by
    simp only [KeyMap.Distinct, threeFaults, ← Key.same_iff_equals]
    decide
  have hknown : ∀ key, ¬ NamesNothing threeFaults key := by
    rintro key ⟨hkey, hname⟩
    simp only [threeFaults, List.map_cons, List.map_nil, List.mem_cons, List.not_mem_nil,
      or_false] at hkey
    rcases hkey with rfl | rfl | rfl
    · exact hname .indent rfl
    · exact hname .positional rfl
    · exact hname .exempt rfl
  refine ⟨hdistinct.keyed, (((settingsOf_entrywise hdistinct.keyed).2.1 hknown).fault _).mpr ?_⟩
  refine ⟨[.unambiguous], .exempt, [.positional, .indent], .scalar (.int 1), rfl, ?_, rfl, ?_⟩
  · simp [threeFaults, SettingName.text]
  · intro earlier hearlier w hw
    obtain rfl := List.mem_singleton.mp hearlier
    simp only [threeFaults, List.mem_cons, List.not_mem_nil, or_false, Prod.mk.injEq,
      Key.scalar.injEq, Scalar.str.injEq] at hw
    rcases hw with ⟨h, -⟩ | ⟨h, -⟩ | ⟨h, -⟩ <;> exact absurd h (by decide)

end FluentFixtures.Config
