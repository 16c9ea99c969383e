import FluentFixtures.Proofs.Config.Entrywise
import FluentFixtures.Proofs.Config.Reader
import FluentFixtures.Proofs.Yaml.Keys

/-!
# Members of sets

A set of the settings has the entries of the value that gives it: the items of a
list, the keys of a mapping, the members of a set, and all of them. A text has no
entries, but has parts: a set that a text gives holds its letters, and one that
bytes give holds their numbers. No other value breaks what is written into
pieces: `ofBytes_sets`, for every reader whose mappings have no key twice.
-/

namespace FluentFixtures

theorem KeySet.mem_ofList_of_injective {parts : List Key} {key : Key}
    (h : ∀ part, key.Equals part → part ∈ parts → part = key) :
    key ∈ ofList parts ↔ key ∈ parts := by
  refine ⟨mem_of_mem_ofList, fun hkey => ?_⟩
  have hmember : member key (ofList parts) = true :=
    member_ofList.mpr ⟨key, hkey, Key.equals_self key⟩
  obtain ⟨part, hpart, hequals⟩ := member_iff.mp hmember
  rwa [← h part hequals (mem_of_mem_ofList hpart)]

namespace Config

/-- Whether a key is written in a value as an entry of its own. -/
inductive Value.HasEntry : Value → Key → Prop
  | item {items : List Value} {item : Value} {m : Key} (h : item ∈ items) (hkey : keyOf item = .ok m) :
    HasEntry (.list items) m
  | first {a b : Value} {m : Key} (hkey : keyOf a = .ok m) : HasEntry (.pair a b) m
  | second {a b : Value} {m : Key} (hkey : keyOf b = .ok m) : HasEntry (.pair a b) m
  | member {members : KeySet} {m : Key} (h : m ∈ members) : HasEntry (.set members) m
  | key {entries : List (Key × Value)} {m : Key} {v : Value} (h : (m, v) ∈ entries) :
    HasEntry (.mapping entries) m

/-- Whether a value is a text or bytes, and not empty. -/
def Value.IsString : Value → Prop
  | .scalar (.str t) => t ≠ []
  | .bytes b => b ≠ []
  | _ => False

/-- What a set has of the value that gives it. -/
structure MadeOf (v : Value) (set : KeySet) : Prop where
  /-- Only texts and bytes are broken into pieces. -/
  whole_iff : (∀ m ∈ set, v.HasEntry m) ↔ ¬ v.IsString
  complete : ∀ m, v.HasEntry m → KeySet.member m set = true
  letters : ∀ t, v = .scalar (.str t) → ∀ m, m ∈ set ↔ ∃ c ∈ t, m = .str [c]
  numbers : ∀ b, v = .bytes b → ∀ m, m ∈ set ↔ ∃ x ∈ b, m = keyOfByte x

variable {v w : Value} {set : KeySet} {parts : List Key} {s : Settings} {d : KeyMap Value}

/-- Of scalars that are no text only those that say nothing have parts, which are none. -/
theorem eq_nil_of_partsOf_scalar {value : Scalar} (h : partsOf (.scalar value) = .ok parts)
    (htext : ∀ t, value ≠ .str t) : parts = [] := by
  cases value with
  | str t => exact absurd rfl (htext t)
  | _ =>
    unfold partsOf at h
    split at h
    · exact (Except.ok.inj h).symm
    · cases h

theorem mem_of_mapM_keyOf {items : List Value} (h : items.mapM keyOf = .ok parts) {m : Key} :
    m ∈ parts ↔ ∃ item ∈ items, keyOf item = .ok m := by
  have hmem : Except.ok m ∈ items.map keyOf ↔ m ∈ parts := by
    rw [map_eq_of_mapM h, List.mem_map_of_injective fun _ _ => Except.ok.inj]
  rw [← hmem, List.mem_map]

theorem partsOf_bytes (b : Bytes) : partsOf (.bytes b) = .ok (b.map keyOfByte) := by
  cases b <;> rfl

theorem partsOf_set (members : KeySet) : partsOf (.set members) = .ok members := by
  cases members <;> rfl

theorem hasEntry_list_iff {items : List Value} {m : Key} :
    (Value.list items).HasEntry m ↔ ∃ item ∈ items, keyOf item = .ok m := by
  constructor
  · rintro ⟨⟩
    next hitem hkey => exact ⟨_, hitem, hkey⟩
  · rintro ⟨item, hitem, hkey⟩
    exact .item hitem hkey

theorem hasEntry_pair_iff {a b : Value} {m : Key} :
    (Value.pair a b).HasEntry m ↔ ∃ item ∈ [a, b], keyOf item = .ok m := by
  simp only [List.mem_cons, List.not_mem_nil, or_false, exists_eq_or_imp, exists_eq_left]
  constructor
  · rintro ⟨⟩
    · next hkey => exact .inl hkey
    · next hkey => exact .inr hkey
  · rintro (hkey | hkey)
    · exact .first hkey
    · exact .second hkey

theorem hasEntry_set_iff {members : KeySet} {m : Key} :
    (Value.set members).HasEntry m ↔ m ∈ members := by
  constructor
  · rintro ⟨⟩
    next h => exact h
  · exact .member

theorem hasEntry_mapping_iff {entries : List (Key × Value)} {m : Key} :
    (Value.mapping entries).HasEntry m ↔ m ∈ entries.map Prod.fst := by
  rw [List.mem_map]
  constructor
  · rintro ⟨⟩
    next hmem => exact ⟨_, hmem, rfl⟩
  · rintro ⟨entry, hmem, rfl⟩
    exact .key hmem

/-- The parts of a value that is neither text nor bytes are its entries. -/
theorem mem_partsOf_iff (h : partsOf v = .ok parts) (htext : ∀ t, v ≠ .scalar (.str t))
    (hbytes : ∀ b, v ≠ .bytes b) (m : Key) : m ∈ parts ↔ v.HasEntry m := by
  cases v with
  | scalar value =>
    obtain rfl := eq_nil_of_partsOf_scalar h fun t ht => htext t (congrArg _ ht)
    constructor
    · rintro ⟨⟩
    · rintro ⟨⟩
  | bytes b => exact absurd rfl (hbytes b)
  | list items =>
    rw [partsOf_list] at h
    rw [mem_of_mapM_keyOf h, hasEntry_list_iff]
  | pair a b =>
    have hitems : [a, b].mapM keyOf = .ok parts := h
    rw [mem_of_mapM_keyOf hitems, hasEntry_pair_iff]
  | set members =>
    rw [partsOf_set] at h
    obtain rfl := Except.ok.inj h
    exact hasEntry_set_iff.symm
  | mapping entries =>
    rw [partsOf_mapping] at h
    obtain rfl := Except.ok.inj h
    exact hasEntry_mapping_iff.symm
  | _ => cases h

theorem mem_ofList_map_iff {α : Type} {pieces : List α} {piece : α → Key}
    (hinjective : ∀ a ∈ pieces, ∀ part, (piece a).Equals part → part ∈ pieces.map piece →
      part = piece a) (m : Key) :
    m ∈ KeySet.ofList (pieces.map piece) ↔ ∃ a ∈ pieces, m = piece a := by
  constructor
  · intro hm
    obtain ⟨a, ha, rfl⟩ := List.mem_map.mp (KeySet.mem_of_mem_ofList hm)
    exact ⟨a, ha, rfl⟩
  · rintro ⟨a, ha, rfl⟩
    exact (KeySet.mem_ofList_of_injective (hinjective a ha)).mpr (List.mem_map_of_mem ha)

theorem mem_letters_iff (t : Text) (m : Key) :
    m ∈ KeySet.ofList (t.map fun c => .str [c]) ↔ ∃ c ∈ t, m = .str [c] :=
  mem_ofList_map_iff (fun _ _ _ hequals _ => Key.equals_str_iff.mp hequals) m

theorem mem_numbers_iff (b : Bytes) (m : Key) :
    m ∈ KeySet.ofList (b.map keyOfByte) ↔ ∃ x ∈ b, m = keyOfByte x := by
  refine mem_ofList_map_iff (fun x _ part hequals hpart => ?_) m
  obtain ⟨y, -, rfl⟩ := List.mem_map.mp hpart
  have hvalue : (x.toNat : ℚ) = y.toNat := by
    have hscalars := Key.equals_scalar_iff.mp hequals
    simpa [Scalar.Equals, Scalar.number?] using hscalars
  rw [keyOfByte, keyOfByte, Nat.cast_injective hvalue]

theorem madeOf_letters (t : Text) :
    MadeOf (.scalar (.str t)) (KeySet.ofList (t.map fun c => .str [c])) := by
  have hmem := mem_letters_iff t
  constructor
  case whole_iff =>
    cases t with
    | nil => simp [Value.IsString, KeySet.ofList]
    | cons c t =>
      refine ⟨fun hwhole => ?_, fun hempty => absurd (List.cons_ne_nil c t) hempty⟩
      cases hwhole _ ((hmem _).mpr ⟨c, List.mem_cons_self, rfl⟩)
  case complete => rintro m ⟨⟩
  case letters =>
    rintro t' ⟨⟩
    exact hmem
  case numbers => rintro b ⟨⟩

theorem madeOf_numbers (b : Bytes) : MadeOf (.bytes b) (KeySet.ofList (b.map keyOfByte)) := by
  have hmem := mem_numbers_iff b
  constructor
  case whole_iff =>
    cases b with
    | nil => simp [Value.IsString, KeySet.ofList]
    | cons x b =>
      refine ⟨fun hwhole => ?_, fun hempty => absurd (List.cons_ne_nil x b) hempty⟩
      cases hwhole _ ((hmem _).mpr ⟨x, List.mem_cons_self, rfl⟩)
  case complete => rintro m ⟨⟩
  case letters => rintro t ⟨⟩
  case numbers =>
    rintro b' ⟨⟩
    exact hmem

theorem madeOf_entries (h : partsOf v = .ok parts) (htext : ∀ t, v ≠ .scalar (.str t))
    (hbytes : ∀ b, v ≠ .bytes b) : MadeOf v (KeySet.ofList parts) := by
  have hentries := mem_partsOf_iff h htext hbytes
  constructor
  case whole_iff =>
    have hother : ¬ v.IsString := by
      intro hstring
      unfold Value.IsString at hstring
      split at hstring
      · exact htext _ rfl
      · exact hbytes _ rfl
      · exact hstring
    exact ⟨fun _ => hother, fun _ m hm => (hentries m).mp (KeySet.mem_of_mem_ofList hm)⟩
  case complete =>
    exact fun m hm => KeySet.member_ofList.mpr ⟨m, (hentries m).mpr hm, Key.equals_self m⟩
  case letters => exact fun t ht => absurd ht (htext t)
  case numbers => exact fun b hb => absurd hb (hbytes b)

theorem madeOf_of_keySetOf (h : keySetOf v = .ok set) : MadeOf v set := by
  obtain ⟨parts, hparts, rfl⟩ := map_eq_ok_iff.mp h
  by_cases htext : ∃ t, v = .scalar (.str t)
  · obtain ⟨t, rfl⟩ := htext
    rw [partsOf_str] at hparts
    obtain rfl := Except.ok.inj hparts
    exact madeOf_letters t
  by_cases hbytes : ∃ b, v = .bytes b
  · obtain ⟨b, rfl⟩ := hbytes
    rw [partsOf_bytes] at hparts
    obtain rfl := Except.ok.inj hparts
    exact madeOf_numbers b
  exact madeOf_entries hparts (not_exists.mp htext) (not_exists.mp hbytes)

/-! ## Sets of a file -/

/-- Whether a value of a mapping gives a set of settings. -/
inductive GivesSet (d : KeyMap Value) (s : Settings) : Value → KeySet → Prop
  | unambiguous {v : Value} (h : (.str unambiguousKey, v) ∈ d) : GivesSet d s v s.rules.unambiguous
  | exempt {v : Value} (h : (.str exemptKey, v) ∈ d) : GivesSet d s v s.rules.exempt
  /-- Positional types stand in the order of the keys that they are of. -/
  | positional {entries : KeyMap Value} {key : Key} {v : Value} {types : KeySet}
    (h : (.str positionalKey, .mapping entries) ∈ d)
    (hv : ((key, v), (key, types)) ∈ entries.zip s.rules.positional) : GivesSet d s v types

theorem settingsOf_eq_ok (h : settingsOf v = .ok s) :
    (v.isEmpty = true ∧ s = .default) ∨ ∃ d, v = .mapping d ∧ settingsOfEntries d = .ok s := by
  unfold settingsOf at h
  by_cases hempty : v.isEmpty = true
  · rw [if_pos hempty] at h
    cases h
    exact .inl ⟨hempty, rfl⟩
  · rw [if_neg hempty] at h
    cases v with
    | mapping d =>
      refine .inr ⟨d, rfl, ?_⟩
      dsimp only at h
      split at h
      · exact h
      · cases h
    | _ => cases h

theorem read_of_mem {α : Type} {t : Text} {default a : α} {read : Value → Except LoadError α}
    (hkeyed : d.Keyed) (hw : (.str t, w) ∈ d) (h : settingOr d t default read = .ok a) :
    read w = .ok a := by
  rwa [settingOr, (setting?_eq_some_iff hkeyed).mpr hw] at h

theorem positionalOf_eq_ok {positional : KeyMap KeySet} (h : positionalOf w = .ok positional) :
    (w.isEmpty = true ∧ positional = []) ∨ ∃ entries, w = .mapping entries ∧
      List.Forall₂ (fun entry types => entry.1 = types.1 ∧ keySetOf entry.2 = .ok types.2)
        entries positional := by
  by_cases hempty : w.isEmpty = true
  · unfold positionalOf at h
    rw [if_pos hempty] at h
    exact .inl ⟨hempty, (Except.ok.inj h).symm⟩
  · refine .inr ?_
    cases w with
    | mapping entries =>
      rw [positionalOf_mapping] at h
      refine ⟨entries, rfl, ?_⟩
      have hsets := map_eq_of_mapM h
      rw [← List.forall₂_eq_eq_eq, List.forall₂_map_left_iff, List.forall₂_map_right_iff] at hsets
      refine hsets.imp fun entry types hentry => ?_
      obtain ⟨set, hset, hpair⟩ := map_eq_ok_iff.mp hentry
      obtain rfl : (entry.1, set) = types := hpair
      exact ⟨rfl, hset⟩
    | _ =>
      unfold positionalOf at h
      rw [if_neg hempty] at h
      cases h

theorem madeOf_of_givesSet {types : KeySet} (hkeyed : d.Keyed) (h : settingsOfEntries d = .ok s)
    (hgives : GivesSet d s w types) : MadeOf w types := by
  cases hgives with
  | unambiguous hw =>
    exact madeOf_of_keySetOf (read_of_mem hkeyed hw (reads_of_settingsOfEntries h .unambiguous))
  | exempt hw =>
    exact madeOf_of_keySetOf (read_of_mem hkeyed hw (reads_of_settingsOfEntries h .exempt))
  | positional hw hv =>
    have hread := read_of_mem hkeyed hw (reads_of_settingsOfEntries h .positional)
    rcases positionalOf_eq_ok hread with ⟨-, hnil⟩ | ⟨entries, hentries, hsets⟩
    · rw [hnil, List.zip_nil_right] at hv
      cases hv
    · cases hentries
      exact madeOf_of_keySetOf (List.forall₂_iff_zip.mp hsets |>.2 hv).2

/-- Whether the sets of settings are made of the entries of a value. -/
inductive SetsOf : Value → Settings → Prop
  | default {v : Value} (hempty : v.isEmpty = true) : SetsOf v .default
  | mapping {d : KeyMap Value} {s : Settings}
    (made : ∀ v types, GivesSet d s v types → MadeOf v types)
    (positional : ∀ v key types, (.str positionalKey, v) ∈ d → (key, types) ∈ s.rules.positional →
      ∃ entries w, v = .mapping entries ∧ (key, w) ∈ entries ∧ GivesSet d s w types) :
    SetsOf (.mapping d) s

theorem exists_givesSet_of_positional {key : Key} {types : KeySet} (hkeyed : d.Keyed)
    (h : settingsOfEntries d = .ok s) (hv : (.str positionalKey, v) ∈ d)
    (htypes : (key, types) ∈ s.rules.positional) :
    ∃ entries w, v = .mapping entries ∧ (key, w) ∈ entries ∧ GivesSet d s w types := by
  have hread := read_of_mem hkeyed hv (reads_of_settingsOfEntries h .positional)
  rcases positionalOf_eq_ok hread with ⟨-, hnil⟩ | ⟨entries, rfl, hsets⟩
  · rw [hnil] at htypes
    cases htypes
  · obtain ⟨hlength, hsets⟩ := List.forall₂_iff_zip.mp hsets
    obtain ⟨i, hi, hget⟩ := List.mem_iff_getElem.mp htypes
    have hentry : i < entries.length := hlength ▸ hi
    have hzip : (entries[i], (key, types)) ∈ entries.zip s.rules.positional := by
      have hlt : i < (entries.zip s.rules.positional).length :=
        List.length_zip ▸ Nat.lt_min.mpr ⟨hentry, hi⟩
      have hmem := List.getElem_mem hlt
      rwa [List.getElem_zip, hget] at hmem
    obtain ⟨hkey, -⟩ := hsets hzip
    obtain ⟨key', w, hentry⟩ : ∃ key' w, entries[i] = (key', w) := ⟨_, _, rfl⟩
    rw [hentry] at hzip hkey
    obtain rfl : key' = key := hkey
    exact ⟨entries, w, rfl, hentry ▸ List.getElem_mem _, .positional hv hzip⟩

/-- What the sets of a configuration file are made of. The members of a set are the entries of the
value written for it, unless that value is a text or bytes: then they are its letters or numbers,
and whole entries only if there are none. -/
theorem ofBytes_sets {reader : Reader} (hreader : reader.Keyed) {path : Text} {bytes : Bytes}
    (h : ofBytes reader path bytes = .ok s) : ∃ v, reader path bytes = .ok v ∧ SetsOf v s := by
  obtain ⟨v, hread, h⟩ := bind_eq_ok_iff.mp h
  rw [mapError_eq_ok_iff] at hread h
  refine ⟨v, hread, ?_⟩
  rcases settingsOf_eq_ok h with ⟨hempty, rfl⟩ | ⟨d, rfl, hentries⟩
  · exact .default hempty
  have hkeyed := hreader hread
  constructor
  case made => exact fun v types => madeOf_of_givesSet hkeyed hentries
  case positional => exact fun v key types => exists_givesSet_of_positional hkeyed hentries

/-- A text for the exempt keys, and a list of positional types. -/
def exemptText : Text := "exempt_parent_keys: ab\npositional_types: \x7bkey: [A]\x7d"

def exemptFile : Bytes := exemptText.flatMap Utf8.encodePoint

theorem ofBytes_exemptFile : ∃ s, ofBytes Yaml.reader [] exemptFile = .ok s ∧
    s.rules.exempt = [.str "a", .str "b"] ∧ s.rules.positional = [(.str "key", [.str "A"])] := by
  have h : (ofBytes Yaml.reader [] exemptFile).toOption.map
      (fun s => (s.rules.exempt, s.rules.positional)) =
        some ([.str "a", .str "b"], [(.str "key", [.str "A"])]) := by
    decide +kernel
  obtain ⟨s, hs, hrules⟩ := Option.map_eq_some_iff.mp h
  exact ⟨s, toOption_eq_some_iff.mp hs, Prod.mk.inj hrules⟩

/-- The sets of a file with a text for one of them. -/
theorem ofBytes_sets_exemptText : ∃ s v, ofBytes Yaml.reader [] exemptFile = .ok s ∧
    Yaml.reader [] exemptFile = .ok v ∧ SetsOf v s := by
  obtain ⟨s, hs, -⟩ := ofBytes_exemptFile
  obtain ⟨v, hv, hsets⟩ := ofBytes_sets Yaml.keyed_reader hs
  exact ⟨s, v, hs, hv, hsets⟩

/-- The kind of the value of the exempt keys. -/
def exemptKind? : Value → Option ValueKind
  | .mapping d => (setting? d exemptKey).map Value.kind
  | _ => none

/-- A text for the exempt keys is taken, and none of the keys that it gives is written as an
entry. -/
theorem exemptText_broken : ∃ s v d, ofBytes Yaml.reader [] exemptFile = .ok s ∧
    Yaml.reader [] exemptFile = .ok (.mapping d) ∧ (.str exemptKey, v) ∈ d ∧
    s.rules.exempt = [.str "a", .str "b"] ∧ ∀ m ∈ s.rules.exempt, ¬ v.HasEntry m := by
  obtain ⟨s, hs, hexempt, -⟩ := ofBytes_exemptFile
  have h : (Yaml.reader [] exemptFile).toOption.bind exemptKind? = some .str := by decide +kernel
  obtain ⟨v, hv, hkind⟩ := Option.bind_eq_some_iff.mp h
  have hread := toOption_eq_some_iff.mp hv
  cases v with
  | mapping d =>
    obtain ⟨w, hw, hkind⟩ := Option.map_eq_some_iff.mp hkind
    refine ⟨s, w, d, hs, hread, mem_of_setting? hw, hexempt, fun m _ hentry => ?_⟩
    cases hentry <;> cases hkind
  | _ => cases hkind

end Config

end FluentFixtures
