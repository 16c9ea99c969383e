import FluentFixtures.Proofs.Passes.Order
import FluentFixtures.Proofs.Rules.Key
import FluentFixtures.Proofs.Tree.Address

/-!
# What dropping implied types leaves

Main statement: `dropImpliedTypes_exact`. The pass leaves the tree without the
types that the rules imply at their place, and with everything else as it was;
with two tables of rules, in either order, without those that one of them
implies. The key that counts is the one the node of the type was reached under,
so an exempt key guards that node alone and not those below it.
-/

namespace FluentFixtures

namespace Tree

/-- Whether a type stands at an address that the rules imply for a node reached as its node is. -/
def ImpliedType (rules : RuleTable) (t : Tree) (p : Address) : Prop :=
  ∃ (q : Address) (type : Text), p = q ++ [.field typeField] ∧
    t.at? p = some (.leaf (.str type)) ∧ rules.Implies type q.key

theorem impliedField_eq_none_iff {rules : RuleTable} {name : Text} {value : Scalar}
    {key : ParentKey} :
    impliedField rules name value key = none ↔
      name = typeField ∧ ∃ type, value = .str type ∧ rules.Implies type key := by
  cases value with
  | str type =>
    by_cases hname : name = typeField <;>
      simp [impliedField, hname, ← RuleTable.implies_iff]
  | null => simp [impliedField]
  | bool b => simp [impliedField]
  | int n => simp [impliedField]
  | double d => simp [impliedField]

theorem impliedField_eq_some {rules : RuleTable} {name : Text} {value value' : Scalar}
    {key : ParentKey} (h : impliedField rules name value key = some value') : value' = value := by
  by_cases hname : name = typeField
  · subst hname
    exact (impliedField_type.mp h).1.symm
  · rw [impliedField_of_ne hname] at h
    exact (Option.some.inj h).symm

theorem droppedBy_impliedField (rules : RuleTable) (t : Tree) :
    t.DroppedBy (impliedField rules) = t.ImpliedType rules := by
  funext p
  refine propext ⟨?_, ?_⟩
  · rintro ⟨q, name, value, hp, hat, hdrop⟩
    obtain ⟨rfl, type, rfl, himplies⟩ := impliedField_eq_none_iff.mp hdrop
    exact ⟨q, type, hp, hat, himplies⟩
  · rintro ⟨q, type, hp, hat, himplies⟩
    exact ⟨q, typeField, .str type, hp, hat, impliedField_eq_none_iff.mpr ⟨rfl, type, rfl, himplies⟩⟩

theorem namesDistinct_dropImplied (rules : RuleTable) {t : Tree} (hnames : t.NamesDistinct) :
    (t.dropImpliedTypes rules).NamesDistinct := by
  rw [dropImpliedTypes_eq_rewrite]
  exact namesDistinct_edit hnames (edit_impliedEdit rules t)

theorem without_dropImplied (rules : RuleTable) {t : Tree} (hnames : t.NamesDistinct) :
    t.Without (t.dropImpliedTypes rules) (t.ImpliedType rules) := by
  rw [dropImpliedTypes_eq_rewrite, ← droppedBy_impliedField]
  exact without_rewrite hnames impliedField_eq_some

/-! ## Two tables -/

section TwoTables

variable (rules rules' : RuleTable)

theorem impliedField_andThen_eq_none_iff {name : Text} {value : Scalar} {key : ParentKey} :
    LeafEdit.andThen (impliedField rules) (impliedField rules') name value key = none ↔
      impliedField rules name value key = none ∨ impliedField rules' name value key = none := by
  rw [LeafEdit.andThen]
  cases h : impliedField rules name value key with
  | none => simp
  | some value' =>
    obtain rfl := impliedField_eq_some h
    simp

theorem impliedField_andThen_eq_some {name : Text} {value value' : Scalar} {key : ParentKey}
    (h : LeafEdit.andThen (impliedField rules) (impliedField rules') name value key =
      some value') : value' = value := by
  obtain ⟨between, hbetween, hvalue⟩ := Option.bind_eq_some_iff.mp h
  exact (impliedField_eq_some hvalue).trans (impliedField_eq_some hbetween)

theorem droppedBy_andThen (t : Tree) :
    t.DroppedBy (LeafEdit.andThen (impliedField rules) (impliedField rules')) =
      fun p => t.ImpliedType rules p ∨ t.ImpliedType rules' p := by
  funext p
  simp only [← droppedBy_impliedField, DroppedBy, impliedField_andThen_eq_none_iff, and_or_left,
    exists_or]

theorem without_dropImplied_twice {t : Tree} (hnames : t.NamesDistinct) :
    t.Without ((t.dropImpliedTypes rules).dropImpliedTypes rules')
      fun p => t.ImpliedType rules p ∨ t.ImpliedType rules' p := by
  rw [dropImpliedTypes_eq_rewrite, dropImpliedTypes_eq_rewrite, rewrite_rewrite,
    ← droppedBy_andThen]
  exact without_rewrite hnames (impliedField_andThen_eq_some rules rules')

end TwoTables

def oneDouble : Scalar := .double (.finite false 0x3FF0000000000000)

theorem number?_oneDouble : oneDouble.number? = some 1 := by
  have hunits : Double.units 0x3FF0000000000000 = Double.unitsPerOne := by
    -- The exponent stays a variable, so that no power of that size is computed.
    obtain ⟨scale, hscale, hpow⟩ := Double.unitsPerOne_eq_pow
    have hrank : 0x3FF0000000000000 = (scale - 52 + 1) * 2 ^ 52 + 0 := by omega
    have hexponent : 52 + (scale - 52) = scale := by omega
    rw [hrank, Double.units_binade (by decide), hpow, Nat.add_zero, ← Nat.pow_add, hexponent]
  have hvalue : Double.value 0x3FF0000000000000 = 1 := by
    rw [Double.value, hunits, div_self Double.unitsPerOne_cast_pos.ne']
  exact congrArg some hvalue

/-- What dropping implied types comes to. -/
structure DropsExactly (rules : RuleTable) (t : Tree) : Prop where
  edits : t.edit (impliedEdit rules) = .ok (t.dropImpliedTypes rules)
  once : ∀ u, u = t.dropImpliedTypes rules ↔ u.NamesDistinct ∧ t.Without u (t.ImpliedType rules)
  twice : ∀ rules' u, u = (t.dropImpliedTypes rules).dropImpliedTypes rules' ↔
    u.NamesDistinct ∧ t.Without u fun p => t.ImpliedType rules p ∨ t.ImpliedType rules' p
  comm : ∀ rules', (t.dropImpliedTypes rules).dropImpliedTypes rules' =
    (t.dropImpliedTypes rules').dropImpliedTypes rules
  /-- Truth values and doubles name the index that they equal. -/
  index_equals : ∀ key ∈ [Scalar.bool true, .int 1, oneDouble],
    (ParentKey.index 1).scalar.Equals key
  text_not_equals : ∀ index text, ¬ (ParentKey.index index).scalar.Equals (.str text)

/-- Dropping implied types never fails, and what it makes of a tree is the one tree that lacks the
implied types and has everything else where it was. A second table, before or after, takes those
away that it implies itself. -/
theorem dropImpliedTypes_exact (rules : RuleTable) {t : Tree} (hnames : t.NamesDistinct) :
    t.DropsExactly rules := by
  have hunique {u v : Tree} {gone : Address → Prop} (hv : t.Without v gone)
      (hdistinct : v.NamesDistinct) : u = v ↔ u.NamesDistinct ∧ t.Without u gone := by
    constructor
    · rintro rfl
      exact ⟨hdistinct, hv⟩
    · rintro ⟨hu, hwithout⟩
      exact hwithout.unique hv hu hdistinct
  have htwice (first second : RuleTable) :
      ((t.dropImpliedTypes first).dropImpliedTypes second).NamesDistinct :=
    namesDistinct_dropImplied second (namesDistinct_dropImplied first hnames)
  constructor
  case edits => rw [edit_impliedEdit, dropImpliedTypes_eq_rewrite]
  case once =>
    exact fun u => hunique (without_dropImplied rules hnames) (namesDistinct_dropImplied rules hnames)
  case twice =>
    exact fun rules' u => hunique (without_dropImplied_twice rules rules' hnames) (htwice rules rules')
  case comm =>
    intro rules'
    refine (without_dropImplied_twice rules rules' hnames).unique ?_ (htwice _ _) (htwice _ _)
    have hother := without_dropImplied_twice rules' rules hnames
    simpa only [or_comm] using hother
  case index_equals =>
    intro key hkey
    rw [ParentKey.index_equals_iff, Nat.cast_one]
    simp only [List.mem_cons, List.not_mem_nil, or_false] at hkey
    rcases hkey with rfl | rfl | rfl
    · rfl
    · exact congrArg some Int.cast_one
    · exact number?_oneDouble
  case text_not_equals =>
    intro index text h
    cases ParentKey.index_equals_iff.mp h

/-- Rules that guard the second item of a sequence, whose index a truth value names. -/
def guardedRules : RuleTable :=
  { unambiguous := [.str "Pattern"], exempt := [.bool true], positional := [] }

def listedPatterns : Tree :=
  .seq [.keyed [(typeField, .leaf (.str "Pattern"))], .keyed [(typeField, .leaf (.str "Pattern"))]]

theorem dropImpliedTypes_exact_listedPatterns :
    listedPatterns.NamesDistinct ∧
      listedPatterns.ImpliedType guardedRules [.item 0, .field typeField] ∧
      ¬ listedPatterns.ImpliedType guardedRules [.item 1, .field typeField] ∧
      listedPatterns.Without (listedPatterns.dropImpliedTypes guardedRules)
        (listedPatterns.ImpliedType guardedRules) := by
  have hnames : listedPatterns.NamesDistinct := by decide
  have hexact := dropImpliedTypes_exact guardedRules hnames
  refine ⟨hnames, ?_, ?_, ((hexact.once _).mp rfl).2⟩
  · exact ⟨[.item 0], "Pattern", rfl, rfl, RuleTable.implies_iff.mp rfl⟩
  · rintro ⟨q, type, hp, hat, himplies⟩
    change [Step.item 1] ++ [Step.field typeField] = q ++ [Step.field typeField] at hp
    obtain rfl := List.append_cancel_right hp
    cases hat
    cases RuleTable.implies_iff.mpr himplies

end Tree

end FluentFixtures
