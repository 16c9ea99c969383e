import FluentFixtures.Proofs.Passes.Order

/-!
# Normalizing twice

What a second normalization does to a normalized tree is to take one more dash
off every name that has one: no implied type and no line feed to split at is
left over. So a second run changes nothing if and only if no name has a dash.
-/

namespace FluentFixtures.Tree

/-! ## Names without a dash -/

def UndashedNode : Tree → Prop
  | .keyed fields => ∀ rest : Text, (nameField, .leaf (.str (0x2D :: rest))) ∉ fields
  | _ => True

def Undashed (t : Tree) : Prop := t.Every UndashedNode

theorem undashField_eq_self_iff {name : Text} {value : Scalar} :
    undashField name value = some value ↔
      ∀ rest : Text, (name, value) ≠ (nameField, .str (0x2D :: rest)) := by
  unfold undashField
  split
  · next rest =>
    by_cases hname : name = nameField
    · have hlength : rest ≠ 0x2D :: rest := fun e => by simpa using congrArg List.length e
      simp [hname, hlength]
    · simp [hname]
  · next hvalue =>
    simp only [ne_eq, Prod.mk.injEq, not_and, true_iff]
    exact fun rest _ hdash => hvalue rest hdash

theorem undashField_isSome (name : Text) (value : Scalar) : (undashField name value).isSome := by
  unfold undashField
  split <;> rfl

mutual

theorem rewrite_undash_eq_self_iff (key : ParentKey) :
    ∀ t : Tree, t.rewrite undashLeaf key = t ↔ t.Undashed
  | .leaf _ => by simp [rewrite, Undashed, Every, UndashedNode]
  | .seq items => by
    rw [rewrite, seq.injEq, rewriteItems_undash_eq_self_iff]
    simp [Undashed, Every, UndashedNode]
  | .keyed fields => by
    rw [rewrite, keyed.injEq, rewriteFields_undash_eq_self_iff]
    rfl

theorem rewriteItems_undash_eq_self_iff (index : Nat) :
    ∀ ts, rewriteItems undashLeaf index ts = ts ↔ EveryItem UndashedNode ts
  | [] => by simp [rewriteItems, EveryItem]
  | t :: rest => by
    rw [rewriteItems, List.cons.injEq, rewrite_undash_eq_self_iff, rewriteItems_undash_eq_self_iff]
    rfl

theorem rewriteFields_undash_eq_self_iff (key : ParentKey) :
    ∀ fields, rewriteFields undashLeaf key fields = fields ↔
      (∀ rest : Text, (nameField, .leaf (.str (0x2D :: rest))) ∉ fields) ∧
        EveryField UndashedNode fields
  | [] => by simp [rewriteFields, EveryField]
  | (name, t) :: rest => by
    have hrest := rewriteFields_undash_eq_self_iff key rest
    have ht := rewrite_undash_eq_self_iff (.field name) t
    have hcontainer (hkind : t.kind ≠ .leaf) :
        rewriteFields undashLeaf key ((name, t) :: rest) = (name, t) :: rest ↔
          t.Undashed ∧ rewriteFields undashLeaf key rest = rest := by
      rw [rewriteFields, keep_container _ _ _ (by rwa [kind_rewrite]), List.singleton_append,
        List.cons.injEq, Prod.mk.injEq, ht]
      simp
    cases t with
    | leaf value =>
      obtain ⟨value', hvalue⟩ := Option.isSome_iff_exists.mp (undashField_isSome name value)
      have hkept : undashField name value = some value ↔ value' = value := by rw [hvalue]; simp
      have hnode : (∀ more : Text, (nameField, .leaf (.str (0x2D :: more))) ∉
            (name, Tree.leaf value) :: rest) ↔
          (∀ more : Text, (name, value) ≠ (nameField, .str (0x2D :: more))) ∧
            ∀ more : Text, (nameField, .leaf (.str (0x2D :: more))) ∉ rest := by
        simp only [List.mem_cons, not_or, Prod.mk.injEq, leaf.injEq, ne_eq, forall_and,
          eq_comm (b := name), eq_comm (b := value)]
      rw [hnode, ← undashField_eq_self_iff, hkept, and_assoc]
      simp only [rewriteFields, rewrite, LeafEdit.keep, undashLeaf, hvalue, List.singleton_append,
        List.cons.injEq, Prod.mk.injEq, leaf.injEq, true_and]
      refine and_congr_right fun _ => hrest.trans (and_congr_right fun _ => ?_)
      simp [EveryField, Every, UndashedNode]
    | seq items =>
      rw [hcontainer (by simp [kind]), hrest]
      simp [EveryField, Undashed, and_left_comm]
    | keyed fields =>
      rw [hcontainer (by simp [kind]), hrest]
      simp [EveryField, Undashed, and_left_comm]

end

theorem undashNames_eq_self_iff (t : Tree) : t.undashNames = t ↔ t.Undashed := by
  rw [undashNames_eq_rewrite, rewrite_undash_eq_self_iff]

/-! ## What a normalization leaves -/

section Normal

variable {rules : RuleTable} (hrules : rules.NoIndexKey) {keepBlank : Bool} {t u : Tree}
  (h : t.normalize rules keepBlank = .ok u)

include hrules h

theorem dropImpliedTypes_normal : u.dropImpliedTypes rules = u := by
  rw [normalize, splitLines_eq_split, dropImpliedTypes_eq_rewrite] at h
  have halike := every_splitAlike_dropped hrules .root t.undashNames
  have hsplit := split_rewrite (indexFree_impliedField hrules) keepBlank .root halike
  rw [rewrite_rewrite, implied_andThen_implied, h] at hsplit
  rw [dropImpliedTypes_eq_rewrite]
  exact (Except.ok.inj hsplit).symm

omit hrules in
theorem splitLines_normal : u.splitLines keepBlank = .ok u := by
  rw [normalize, splitLines_eq_split] at h
  rw [splitLines_eq_split, split_split h, Bool.and_self, h]

theorem normalize_normal : u.normalize rules keepBlank = .ok u.undashNames := by
  rw [normalize, ← undash_dropImplied, dropImpliedTypes_normal hrules h, splitLines_undash,
    splitLines_normal h]
  rfl

end Normal

theorem normalize_eq_split (rules : RuleTable) (keepBlank : Bool) (t : Tree) :
    t.normalize rules keepBlank =
      ((t.rewrite undashLeaf .root).rewrite (impliedField rules) .root).split keepBlank := by
  rw [normalize, splitLines_eq_split, dropImpliedTypes_eq_rewrite, undashNames_eq_rewrite]

/-- A second normalization takes one more dash off the names and does nothing else: it changes
nothing if and only if no name has a dash left. -/
theorem normalize_twice {rules : RuleTable} (hrules : rules.NoIndexKey) {keepBlank : Bool}
    {t u : Tree} (h : t.normalize rules keepBlank = .ok u) :
    u.normalize rules keepBlank = .ok u.undashNames ∧
      (u.normalize rules keepBlank = .ok u ↔ u.Undashed) ∧
      u.dropImpliedTypes rules = u ∧ u.splitLines keepBlank = .ok u := by
  have htwice := normalize_normal hrules h
  refine ⟨htwice, ?_, dropImpliedTypes_normal hrules h, splitLines_normal h⟩
  rw [htwice, Except.ok.injEq, undashNames_eq_self_iff]

def dashedTerm : Tree :=
  .keyed [(typeField, .leaf (.str "Resource")), (nameField, .leaf (.str "--brand")),
    ("elements", .seq [textElement "a\n\nb", .keyed [(typeField, .leaf (.str "Identifier"))]])]

/-- The term before its lines are split. -/
def dashedTermDropped : Tree :=
  .keyed [(nameField, .leaf (.str "-brand")),
    ("elements", .seq [textElement "a\n\nb", .keyed []])]

/-- Its normal form, with a dash left. -/
def dashedTermNormal : Tree :=
  .keyed [(nameField, .leaf (.str "-brand")),
    ("elements", .seq [textElement "a\n", textElement "\n", textElement "b", .keyed []])]

theorem normalize_twice_dashedTerm :
    RuleTable.default.NoIndexKey ∧ dashedTerm.normalize .default true = .ok dashedTermNormal ∧
      dashedTermNormal.normalize .default true = .ok dashedTermNormal.undashNames := by
  have hdropped : dashedTerm.rewrite (undashLeaf.andThen (impliedField .default)) .root =
      dashedTermDropped := rfl
  have hsplit : dashedTermDropped.split true = .ok dashedTermNormal := rfl
  have hnormal : dashedTerm.normalize .default true = .ok dashedTermNormal := by
    rw [normalize_eq_split, rewrite_rewrite, hdropped, hsplit]
  exact ⟨RuleTable.noIndexKey_default, hnormal,
    (normalize_twice RuleTable.noIndexKey_default hnormal).1⟩

end FluentFixtures.Tree
