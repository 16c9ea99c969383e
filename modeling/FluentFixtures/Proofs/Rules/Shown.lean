import FluentFixtures.Passes
import FluentFixtures.Proofs.Faults
import FluentFixtures.Proofs.Rules.Order
import FluentFixtures.Proofs.Tree.Printable
import FluentFixtures.Rules.Shown

/-!
# Printed tables

Tables are equal if their sets have the same members and their maps the same keys
with equal sets; equal tables imply the same types, so they prune trees alike. A
table of printable strings is always printed, with all its parts in order:
`Printable.shown`.
-/

namespace FluentFixtures

namespace Key

def IsPrintable (key : Key) : Prop := ∃ t, key = .str t ∧ t.PrintableAscii

instance : DecidablePred IsPrintable
  | .str t => decidable_of_iff t.PrintableAscii
    ⟨fun h => ⟨t, rfl, h⟩, fun ⟨_, heq, h⟩ => Scalar.str.inj (Key.scalar.inj heq) ▸ h⟩
  | .null => isFalse nofun
  | .bool _ => isFalse nofun
  | .int _ => isFalse nofun
  | .double _ => isFalse nofun
  | .bytes _ => isFalse nofun
  | .date _ => isFalse nofun
  | .moment _ => isFalse nofun
  | .pair _ _ => isFalse nofun

def text : Key → Text
  | .str t => t
  | _ => []

theorem IsPrintable.isString {key : Key} (h : key.IsPrintable) : key.isString = true := by
  obtain ⟨t, rfl, -⟩ := h
  rfl

theorem allComparable_of_strings {keys : List Key} (h : ∀ key ∈ keys, key.isString = true) :
    allComparable keys = true := by
  obtain ⟨names, rfl⟩ := exists_names h
  exact allComparable_iff.mpr (List.pairwise_map.mpr (List.pairwise_of_forall fun _ _ => rfl))

end Key

theorem mapM_eq_some_map {α β : Type} {l : List α} {f : α → Option β} {g : α → β}
    (h : ∀ a ∈ l, f a = some (g a)) : l.mapM f = some (l.map g) := by
  induction l with
  | nil => rfl
  | cons a l ih =>
    obtain ⟨ha, hl⟩ := List.forall_mem_cons.mp h
    rw [List.mapM_cons, ha, ih hl]
    rfl

namespace KeySet

/-- Whether two sets have the same members. -/
def SameMembers (keys keys' : KeySet) : Prop := ∀ key, member key keys = member key keys'

def inOrder (keys : KeySet) : List Key := keys.mergeSort fun a b => (Key.compare a b).isLE

variable {keys : KeySet}

theorem mem_inOrder {key : Key} : key ∈ inOrder keys ↔ key ∈ keys := List.mem_mergeSort

theorem sort?_of_strings (h : ∀ s ∈ keys, s.isString = true) :
    sort? keys = some (inOrder keys) := by
  rw [sort?, Key.allComparable_of_strings h, if_pos rfl, inOrder]

theorem sameMembers_ofList_inOrder (keys : KeySet) : SameMembers keys (ofList (inOrder keys)) := by
  intro key
  rw [Bool.eq_iff_iff, member_ofList, member_iff]
  simp only [mem_inOrder]

end KeySet

namespace KeyMap

variable {α β : Type}

def inOrder (map : KeyMap α) : KeyMap α := insertionSort (fun a b => Key.less a.1 b.1) map

theorem inOrder_perm (map : KeyMap α) : (inOrder map).Perm map := insertionSort_perm _ map

theorem sort?_of_strings {map : KeyMap α} (h : ∀ entry ∈ map, entry.1.isString = true) :
    sort? map = some (inOrder map) := by
  have hkeys : ∀ s ∈ map.map Prod.fst, s.isString = true := List.forall_mem_map.mpr h
  rw [sort?, Key.allComparable_of_strings hkeys, if_pos rfl, inOrder]

theorem get?_map (key : Key) (map : KeyMap α) (f : α → β) :
    get? key (map.map fun entry => (entry.1, f entry.2)) = (get? key map).map f := by
  rw [get?, get?, List.find?_map, Option.map_map, Option.map_map]
  rfl

theorem distinct_iff_pairwise {map : KeyMap α} :
    map.Distinct ↔ (map.map Prod.fst).Pairwise fun a b => ¬ a.Equals b := by
  rw [List.pairwise_map]
  rfl

end KeyMap

namespace RuleTable

variable {rules rules' : RuleTable}

/-! ## Equal tables -/

/-- Whether two tables are equal: sets are equal if they have the same members, and maps if they
have the same keys with equal values. -/
structure Equals (rules rules' : RuleTable) : Prop where
  unambiguous : KeySet.SameMembers rules.unambiguous rules'.unambiguous
  exempt : KeySet.SameMembers rules.exempt rules'.exempt
  positional : ∀ key, Option.Rel KeySet.SameMembers (rules.positional.get? key)
    (rules'.positional.get? key)

theorem member_getD_of_rel {types types' : Option KeySet}
    (h : Option.Rel KeySet.SameMembers types types') (key : Key) :
    KeySet.member key (types.getD []) = KeySet.member key (types'.getD []) := by
  cases h with
  | none => rfl
  | some hsame => exact hsame key

theorem Equals.implies (h : rules.Equals rules') (type : Text) (key : Key) :
    rules'.implies type key = rules.implies type key := by
  rw [RuleTable.implies, RuleTable.implies, h.exempt key, h.unambiguous (.str type),
    member_getD_of_rel (h.positional key)]

theorem Equals.dropImpliedTypes (h : rules.Equals rules') (t : Tree) :
    t.dropImpliedTypes rules' = t.dropImpliedTypes rules := by
  have hfield : Tree.impliedField rules' = Tree.impliedField rules := by
    funext name value key
    cases value <;> simp only [Tree.impliedField, h.implies]
  rw [Tree.dropImpliedTypes, Tree.dropImpliedTypes, Tree.impliedEdit, Tree.impliedEdit, hfield]

/-! ## Printable tables -/

/-- Keys of positional types up to this length are read as keys, whatever they say. -/
def keyLimit : Nat := 400

/-- Whether a table is of printable strings, and its positional types have no key twice. -/
structure Printable (rules : RuleTable) : Prop where
  unambiguous : ∀ s ∈ rules.unambiguous, s.IsPrintable
  exempt : ∀ s ∈ rules.exempt, s.IsPrintable
  types : ∀ entry ∈ rules.positional, ∀ s ∈ entry.2, s.IsPrintable
  keys : ∀ entry ∈ rules.positional,
    ∃ t, entry.1 = .str t ∧ t.PrintableAscii ∧ t.length ≤ keyLimit
  distinct : rules.positional.Distinct

/-- The table with all its parts in order. -/
def inOrder (rules : RuleTable) : Sorted where
  unambiguous := rules.unambiguous.inOrder
  exempt := rules.exempt.inOrder
  positional := rules.positional.inOrder.map fun entry => (entry.1, entry.2.inOrder)

theorem Printable.sorted? (h : rules.Printable) : rules.sorted? = some rules.inOrder := by
  have hunambiguous := KeySet.sort?_of_strings fun s hs => (h.unambiguous s hs).isString
  have hexempt := KeySet.sort?_of_strings fun s hs => (h.exempt s hs).isString
  have hkeys : KeyMap.sort? rules.positional = some rules.positional.inOrder := by
    refine KeyMap.sort?_of_strings fun entry hentry => ?_
    obtain ⟨t, ht, -⟩ := h.keys entry hentry
    rw [ht]
    rfl
  have htypes : rules.positional.inOrder.mapM
      (fun entry => (KeySet.sort? entry.2).map fun types => (entry.1, types)) =
        some (rules.positional.inOrder.map fun entry => (entry.1, entry.2.inOrder)) := by
    refine mapM_eq_some_map fun entry hentry => ?_
    have hmem := (KeyMap.inOrder_perm _).mem_iff.mp hentry
    rw [KeySet.sort?_of_strings fun s hs => (h.types entry hmem s hs).isString]
    rfl
  rw [RuleTable.sorted?, hunambiguous, hexempt, hkeys]
  simp only [Option.bind_eq_bind, Option.bind_some, htypes]
  rfl

namespace Sorted

/-- Whether a table in order is of printable strings, and its positional types have no key twice. -/
def Printable (table : Sorted) : Prop :=
  RuleTable.Printable ⟨table.unambiguous, table.exempt, table.positional⟩

end Sorted

theorem Printable.inOrder (h : rules.Printable) : rules.inOrder.Printable where
  unambiguous s hs := h.unambiguous s (KeySet.mem_inOrder.mp hs)
  exempt s hs := h.exempt s (KeySet.mem_inOrder.mp hs)
  types entry hentry s hs := by
    obtain ⟨first, hfirst, rfl⟩ := List.mem_map.mp hentry
    exact h.types first ((KeyMap.inOrder_perm _).mem_iff.mp hfirst) s (KeySet.mem_inOrder.mp hs)
  keys entry hentry := by
    obtain ⟨first, hfirst, rfl⟩ := List.mem_map.mp hentry
    exact h.keys first ((KeyMap.inOrder_perm _).mem_iff.mp hfirst)
  distinct := List.pairwise_map.mpr (h.distinct.perm (KeyMap.inOrder_perm _).symm)

/-! ## Their documents -/

theorem keyTree_of_isPrintable {key : Key} (h : key.IsPrintable) :
    keyTree key = .ok (.leaf (.str key.text)) := by
  obtain ⟨t, rfl, -⟩ := h
  rfl

def leaves (keys : List Key) : Tree := .seq (keys.map fun key => .leaf (.str key.text))

theorem keysTree_of_isPrintable {keys : List Key} (h : ∀ key ∈ keys, key.IsPrintable) :
    keysTree keys = .ok (leaves keys) := by
  have htrees : keys.mapM keyTree = .ok (keys.map fun key => .leaf (.str key.text)) := by
    refine mapM_of_map_eq ?_
    rw [List.map_map]
    exact List.map_congr_left fun key hkey => keyTree_of_isPrintable (h key hkey)
  rw [keysTree, htrees]
  rfl

namespace Sorted

def document (table : Sorted) : Tree :=
  .keyed [("unambiguous_types", leaves table.unambiguous),
    ("exempt_parent_keys", leaves table.exempt),
    ("positional_types",
      .keyed (table.positional.map fun entry => (entry.1.text, leaves entry.2)))]

theorem Printable.tree {table : Sorted} (h : table.Printable) : table.tree = .ok table.document := by
  have hpositional : table.positional.mapM entryTree =
      .ok (table.positional.map fun entry => (entry.1.text, leaves entry.2)) := by
    refine mapM_of_map_eq ?_
    rw [List.map_map]
    refine List.map_congr_left fun entry hentry => ?_
    obtain ⟨key, types⟩ := entry
    obtain ⟨t, ht, -⟩ := h.keys _ hentry
    obtain rfl : key = .str t := ht
    have htypes := keysTree_of_isPrintable (h.types _ hentry)
    simp only [entryTree, htypes]
    rfl
  rw [Sorted.tree, keysTree_of_isPrintable h.unambiguous, keysTree_of_isPrintable h.exempt]
  simp only [hpositional]
  rfl

end Sorted

/-- A table of printable strings is shown with all its parts in order. -/
theorem Printable.shown (h : rules.Printable) :
    rules.shown = .ok (Json.compact rules.inOrder.document) := by
  rw [RuleTable.shown, h.sorted?]
  show rules.inOrder.tree.map Json.compact = _
  rw [h.inOrder.tree]
  rfl

end RuleTable

end FluentFixtures
