import FluentFixtures.Proofs.Config.Load
import FluentFixtures.Proofs.Config.Reader
import FluentFixtures.Proofs.Json.Printable
import FluentFixtures.Proofs.Rules.Shown

/-!
# Shown tables as configuration files

The document of a table of printable strings, laid out on lines, is a
configuration file for every reader that reads such documents. It gives the table
in order, which is equal, and defaults for all other settings:
`Sorted.Printable.ofBytes_document` and `equals_inOrder`.
-/

namespace FluentFixtures

namespace RuleTable

variable {keys : List Key} {table : Sorted}

/-! ## The document of a table -/

theorem printable_leaves (h : ∀ key ∈ keys, key.IsPrintable) : (leaves keys).Printable := by
  refine ⟨trivial, Tree.everyItem_iff.mpr (List.forall_mem_map.mpr fun key hkey => ?_)⟩
  obtain ⟨t, rfl, ht⟩ := h key hkey
  exact ⟨t, rfl, ht⟩

theorem namesShort_parts :
    Tree.NamesShort ["unambiguous_types", "exempt_parent_keys", "positional_types"] := by
  intro name hname
  simp only [List.mem_cons, List.not_mem_nil, or_false] at hname
  rcases hname with rfl | rfl | rfl <;> exact ⟨by decide, by decide⟩

theorem Sorted.Printable.document (h : table.Printable) : table.document.Printable := by
  have hpositional : Tree.Printable (.keyed (table.positional.map fun entry =>
      (entry.1.text, leaves entry.2))) := by
    refine ⟨?_, Tree.everyField_iff.mpr (List.forall_mem_map.mpr fun entry hentry => ?_)⟩
    · intro name hname
      simp only [List.map_map, List.mem_map] at hname
      obtain ⟨entry, hentry, rfl⟩ := hname
      obtain ⟨t, ht, hprintable, hshort⟩ := h.keys entry hentry
      have hlength := Json.length_quote_le hprintable
      simp only [Function.comp_apply, ht, Key.text]
      unfold keyLimit at hshort
      exact ⟨hprintable, by omega⟩
    · exact printable_leaves (h.types entry hentry)
  exact ⟨namesShort_parts, printable_leaves h.unambiguous, printable_leaves h.exempt,
    hpositional, trivial⟩

theorem namesDistinct_leaves (keys : List Key) : (leaves keys).NamesDistinct :=
  ⟨trivial, Tree.everyItem_iff.mpr (List.forall_mem_map.mpr fun _ _ => trivial)⟩

theorem Sorted.Printable.nodup (h : table.Printable) :
    (table.positional.map fun entry => entry.1.text).Nodup := by
  refine List.pairwise_map.mpr (h.distinct.imp_of_mem fun {a b} ha hb hne htext => hne ?_)
  obtain ⟨s, hs, -⟩ := h.keys a ha
  obtain ⟨t, ht, -⟩ := h.keys b hb
  rw [hs, ht] at htext ⊢
  obtain rfl : s = t := htext
  exact Key.equals_self _

theorem Sorted.Printable.namesDistinct (h : table.Printable) : table.document.NamesDistinct := by
  have hpositional : Tree.NamesDistinct (.keyed (table.positional.map fun entry =>
      (entry.1.text, leaves entry.2))) := by
    refine ⟨?_, Tree.everyField_iff.mpr (List.forall_mem_map.mpr fun entry _ => ?_)⟩
    · show List.Nodup (List.map Prod.fst _)
      rw [List.map_map]
      exact h.nodup
    · exact namesDistinct_leaves entry.2
  have hparts : [Config.unambiguousKey, Config.exemptKey, Config.positionalKey].Nodup := by decide
  exact ⟨hparts, namesDistinct_leaves _, namesDistinct_leaves _, hpositional, trivial⟩

theorem heightOfItems_leaves (keys : List Key) :
    Tree.heightOfItems (keys.map fun key => .leaf (.str key.text)) = 0 := by
  induction keys with
  | nil => rfl
  | cons key keys ih => rw [List.map_cons, Tree.heightOfItems, ih]; rfl

theorem height_leaves (keys : List Key) : (leaves keys).height = 1 := by
  rw [leaves, Tree.height, heightOfItems_leaves]

theorem heightOfFields_leaves (positional : List (Key × List Key)) :
    Tree.heightOfFields (positional.map fun entry => (entry.1.text, leaves entry.2)) ≤ 1 := by
  induction positional with
  | nil => exact Nat.zero_le 1
  | cons entry positional ih =>
    rw [List.map_cons, Tree.heightOfFields, height_leaves]
    exact Nat.max_le.mpr ⟨Nat.le_refl 1, ih⟩

theorem Sorted.height_document (table : Sorted) : table.document.height ≤ 3 := by
  have hpositional := heightOfFields_leaves table.positional
  simp only [Sorted.document, Tree.height, Tree.heightOfFields, height_leaves]
  omega

/-! ## Its value -/

open Config (Value entriesOf itemsOf textOf valueOf)

def keysValue (keys : List Key) : Value := .list (keys.map fun key => .scalar (.str key.text))

theorem itemsOf_leaves (keys : List Key) :
    itemsOf (keys.map fun key => .leaf (.str key.text)) =
      keys.map fun key => .scalar (.str key.text) := by
  induction keys with
  | nil => rfl
  | cons key keys ih =>
    rw [List.map_cons, itemsOf, ih]
    rfl

theorem valueOf_leaves (keys : List Key) : valueOf (leaves keys) = keysValue keys := by
  rw [leaves, valueOf, itemsOf_leaves, keysValue]

theorem entriesOf_leaves (positional : List (Key × List Key)) :
    entriesOf (positional.map fun entry => (entry.1.text, leaves entry.2)) =
      positional.map fun entry => (.str entry.1.text, keysValue entry.2) := by
  induction positional with
  | nil => rfl
  | cons entry positional ih =>
    rw [List.map_cons, entriesOf, ih, valueOf_leaves]
    rfl

namespace Sorted

def positionalValue (table : Sorted) : KeyMap Value :=
  table.positional.map fun entry => (entry.1, keysValue entry.2)

def entries (table : Sorted) : KeyMap Value :=
  [(.str Config.unambiguousKey, keysValue table.unambiguous),
    (.str Config.exemptKey, keysValue table.exempt),
    (.str Config.positionalKey, .mapping table.positionalValue)]

theorem distinct_entries (table : Sorted) : table.entries.Distinct := by
  rw [KeyMap.distinct_iff_pairwise]
  show List.Pairwise _
    [Key.str Config.unambiguousKey, .str Config.exemptKey, .str Config.positionalKey]
  simp only [← Key.same_iff_equals]
  decide

theorem Printable.valueOf_document (h : table.Printable) :
    valueOf table.document = .mapping table.entries := by
  have hkeys : (table.positional.map fun entry => (Key.str entry.1.text, keysValue entry.2)) =
      table.positionalValue := by
    refine List.map_congr_left fun entry hentry => ?_
    obtain ⟨t, ht, -⟩ := h.keys entry hentry
    rw [ht, Key.text]
  have hpositional : KeyMap.ofList table.positionalValue = table.positionalValue :=
    KeyMap.ofList_eq_self (List.pairwise_map.mpr h.distinct)
  simp only [Sorted.document, valueOf, entriesOf, valueOf_leaves, entriesOf_leaves]
  rw [hkeys, hpositional]
  exact congrArg Value.mapping (KeyMap.ofList_eq_self table.distinct_entries)

/-! ## Its settings -/

/-- The rules that a table in order gives. -/
def rules (table : Sorted) : RuleTable where
  unambiguous := KeySet.ofList table.unambiguous
  exempt := KeySet.ofList table.exempt
  positional := table.positional.map fun entry => (entry.1, KeySet.ofList entry.2)

theorem keySetOf_keysValue (h : ∀ key ∈ keys, key.IsPrintable) :
    Config.keySetOf (keysValue keys) = .ok (KeySet.ofList keys) := by
  have hparts : (keys.map fun key => .scalar (.str key.text)).mapM Config.keyOf = .ok keys := by
    refine mapM_of_map_eq ?_
    rw [List.map_map]
    refine List.map_congr_left fun key hkey => ?_
    obtain ⟨t, rfl, -⟩ := h key hkey
    rfl
  rw [Config.keySetOf, keysValue, Config.partsOf_list, hparts]
  rfl

theorem Printable.positionalOf_positionalValue (h : table.Printable) :
    Config.positionalOf (.mapping table.positionalValue) = .ok table.rules.positional := by
  rw [Config.positionalOf_mapping]
  refine mapM_of_map_eq ?_
  simp only [positionalValue, Sorted.rules, List.map_map]
  refine List.map_congr_left fun entry hentry => ?_
  simp only [Function.comp_apply, keySetOf_keysValue (h.types entry hentry)]
  rfl

theorem Printable.settingsOf_entries (h : table.Printable) :
    Config.settingsOf (.mapping table.entries) =
      .ok { Settings.default with rules := table.rules } := by
  have hknown : ∀ entry ∈ table.entries, Config.isSettingKey entry.1 = true := by
    intro entry hentry
    simp only [entries, List.mem_cons, List.not_mem_nil, or_false] at hentry
    rcases hentry with rfl | rfl | rfl <;> rfl
  have hunambiguous : Config.settingOr table.entries Config.unambiguousKey
      Settings.default.rules.unambiguous Config.keySetOf = .ok table.rules.unambiguous :=
    keySetOf_keysValue h.unambiguous
  have hexempt : Config.settingOr table.entries Config.exemptKey Settings.default.rules.exempt
      Config.keySetOf = .ok table.rules.exempt :=
    keySetOf_keysValue h.exempt
  have hpositional : Config.settingOr table.entries Config.positionalKey
      Settings.default.rules.positional Config.positionalOf = .ok table.rules.positional :=
    h.positionalOf_positionalValue
  rw [Config.settingsOf_mapping hknown, Config.settingsOfEntries]
  simp only [hunambiguous, hexempt, hpositional]
  rfl

/-- The document of a table is a configuration file that gives the table and defaults. -/
theorem Printable.ofBytes_document {reader : Config.Reader} (hreader : reader.ReadsDocuments)
    (h : table.Printable) (indent : Nat) {blanks : Text} (hblanks : blanks.IsSpacing) (path : Text)
    {bytes : Bytes}
    (hbytes : Utf8.encode? (Json.render indent 0 table.document ++ blanks) = some bytes) :
    Config.ofBytes reader path bytes = .ok { Settings.default with rules := table.rules } := by
  have hheight : table.document.height ≤ Config.flatHeight :=
    table.height_document.trans (by decide)
  have hread := hreader h.document hheight indent hblanks path hbytes
  rw [Config.ofBytes, hread, h.valueOf_document]
  show (Config.settingsOf (.mapping table.entries)).mapError Config.FileError.load = _
  rw [h.settingsOf_entries]
  rfl

end Sorted

/-! ## The table again -/

variable {rules : RuleTable}

theorem equals_inOrder (hdistinct : rules.positional.Distinct) :
    rules.Equals rules.inOrder.rules where
  unambiguous := KeySet.sameMembers_ofList_inOrder rules.unambiguous
  exempt := KeySet.sameMembers_ofList_inOrder rules.exempt
  positional key := by
    have hget : rules.inOrder.rules.positional.get? key =
        ((rules.positional.get? key).map KeySet.inOrder).map KeySet.ofList := by
      rw [Sorted.rules, KeyMap.get?_map, inOrder, KeyMap.get?_map,
        hdistinct.get?_perm (KeyMap.inOrder_perm rules.positional).symm]
    rw [hget]
    cases rules.positional.get? key with
    | none => exact .none
    | some types => exact .some (KeySet.sameMembers_ofList_inOrder types)

end RuleTable

end FluentFixtures
