import FluentFixtures.Proofs.Passes.Fields

/-!
# The order of the passes

Taking dashes off names commutes with both other passes on every tree. Dropping
implied types commutes with splitting if no rule has an index for its key and the
type of text elements is not dropped everywhere; then a permutation of passes
does the same as they do: `Pass.runAll_perm`.
-/

namespace FluentFixtures

namespace Tree

theorem undash_dropImplied (rules : RuleTable) (t : Tree) :
    (t.dropImpliedTypes rules).undashNames = t.undashNames.dropImpliedTypes rules := by
  simp only [undashNames_eq_rewrite, dropImpliedTypes_eq_rewrite]
  exact rewrite_comm (undash_andThen_implied rules).symm .root t

theorem splitLines_undash (keepBlank : Bool) (t : Tree) :
    t.undashNames.splitLines keepBlank = (t.splitLines keepBlank).map undashNames := by
  have hundash : undashNames = rewrite undashLeaf .root := funext undashNames_eq_rewrite
  simp only [splitLines_eq_split, hundash]
  exact split_rewrite indexFree_undashLeaf keepBlank .root (every_splitAlike_undash t)

end Tree

/-- Whether the rules drop no type that splitting looks for: none by an index, and not that of text
elements everywhere. -/
structure RuleTable.SparesText (rules : RuleTable) : Prop where
  noIndexKey : rules.NoIndexKey
  textElement : KeySet.member (.str textElementType) rules.unambiguous = false

namespace Tree

theorem splitLines_dropImplied {rules : RuleTable} (hrules : rules.SparesText) (keepBlank : Bool)
    {t : Tree} (hnames : t.NamesDistinct) :
    (t.dropImpliedTypes rules).splitLines keepBlank =
      (t.splitLines keepBlank).map (dropImpliedTypes rules) := by
  have hdrop : dropImpliedTypes rules = rewrite (impliedField rules) .root :=
    funext (dropImpliedTypes_eq_rewrite rules)
  simp only [splitLines_eq_split, hdrop]
  have halike := every_splitAlike_implied hrules.noIndexKey hrules.textElement hnames
  exact split_rewrite (indexFree_impliedField hrules.noIndexKey) keepBlank .root halike

theorem keeps_namesDistinct {ε : Type} (r : Edit ε) : Keeps r (fun _ => True) List.Nodup where
  field _ _ := trivial
  fewer hsub hnodup := hnodup.sublist hsub
  line _ _ _ _ := ⟨show List.Nodup [typeField, valueField] by decide, trivial, trivial, trivial⟩

theorem namesDistinct_edit {ε : Type} {r : Edit ε} {t u : Tree} (hnames : t.NamesDistinct)
    (h : t.edit r = .ok u) : u.NamesDistinct :=
  Every.edit (keeps_namesDistinct r) hnames h

end Tree

/-- The passes of a normalization. -/
inductive Pass where
  | undashNames
  | dropImpliedTypes
  | splitLines
  deriving DecidableEq, Repr

namespace Pass

variable (rules : RuleTable) (keepBlank : Bool)

def run : Pass → Tree → Except SplitError Tree
  | undashNames, t => .ok t.undashNames
  | dropImpliedTypes, t => .ok (t.dropImpliedTypes rules)
  | splitLines, t => t.splitLines keepBlank

def runAll : List Pass → Tree → Except SplitError Tree
  | [], t => .ok t
  | pass :: rest, t => (pass.run rules keepBlank t).bind (runAll rest)

theorem namesDistinct_run {pass : Pass} {t u : Tree} (hnames : t.NamesDistinct)
    (h : pass.run rules keepBlank t = .ok u) : u.NamesDistinct := by
  cases pass with
  | undashNames =>
    cases h
    rw [Tree.undashNames_eq_rewrite]
    exact Tree.namesDistinct_edit hnames (Tree.edit_undashEdit t)
  | dropImpliedTypes =>
    cases h
    rw [Tree.dropImpliedTypes_eq_rewrite]
    exact Tree.namesDistinct_edit hnames (Tree.edit_impliedEdit rules t)
  | splitLines => exact Tree.namesDistinct_edit hnames h

variable {rules}

theorem run_comm (hrules : rules.SparesText) (p q : Pass) {t : Tree} (hnames : t.NamesDistinct) :
    (p.run rules keepBlank t).bind (q.run rules keepBlank) =
      (q.run rules keepBlank t).bind (p.run rules keepBlank) := by
  have hundash := Tree.splitLines_undash keepBlank t
  have hdrop := Tree.splitLines_dropImplied hrules keepBlank hnames
  have hboth := Tree.undash_dropImplied rules t
  cases p with
  | undashNames =>
    cases q with
    | undashNames => rfl
    | dropImpliedTypes => simp only [run, Except.bind, hboth]
    | splitLines =>
      simp only [run, Except.bind, hundash]
      cases t.splitLines keepBlank <;> rfl
  | dropImpliedTypes =>
    cases q with
    | undashNames => simp only [run, Except.bind, hboth]
    | dropImpliedTypes => rfl
    | splitLines =>
      simp only [run, Except.bind, hdrop]
      cases t.splitLines keepBlank <;> rfl
  | splitLines =>
    cases q with
    | undashNames =>
      simp only [run, Except.bind, hundash]
      cases t.splitLines keepBlank <;> rfl
    | dropImpliedTypes =>
      simp only [run, Except.bind, hdrop]
      cases t.splitLines keepBlank <;> rfl
    | splitLines => rfl

theorem runAll_perm (hrules : rules.SparesText) {order order' : List Pass}
    (hperm : order.Perm order') {t : Tree} (hnames : t.NamesDistinct) :
    runAll rules keepBlank order t = runAll rules keepBlank order' t := by
  induction hperm generalizing t with
  | nil => rfl
  | cons pass _ ih =>
    rw [runAll, runAll]
    cases h : pass.run rules keepBlank t with
    | error e => rfl
    | ok u => exact ih (namesDistinct_run rules keepBlank hnames h)
  | swap p q rest =>
    have hassoc (a b : Pass) : runAll rules keepBlank (a :: b :: rest) t =
        ((a.run rules keepBlank t).bind (b.run rules keepBlank)).bind
          (runAll rules keepBlank rest) := by
      rw [runAll]
      cases a.run rules keepBlank t <;> rfl
    rw [hassoc, hassoc, run_comm keepBlank hrules q p hnames]
  | trans _ _ ih ih' => exact (ih hnames).trans (ih' hnames)

def standardOrder : List Pass := [undashNames, dropImpliedTypes, splitLines]

theorem runAll_standardOrder (t : Tree) :
    runAll rules keepBlank standardOrder t = t.normalize rules keepBlank := by
  show (t.normalize rules keepBlank).bind Except.ok = _
  cases t.normalize rules keepBlank <;> rfl

end Pass

theorem RuleTable.sparesText_default : RuleTable.default.SparesText :=
  ⟨noIndexKey_default, rfl⟩

namespace Tree

/-- Taking dashes off commutes with both other passes. Dropping commutes with splitting where no
rule has an index for its key and text elements keep their type; then all orders of the passes
give the same tree or the same error. The names of a node of a document are distinct. -/
theorem passes_commute (rules : RuleTable) (keepBlank : Bool) (t : Tree) :
    (t.dropImpliedTypes rules).undashNames = t.undashNames.dropImpliedTypes rules ∧
      t.undashNames.splitLines keepBlank = (t.splitLines keepBlank).map undashNames ∧
      (rules.SparesText → t.NamesDistinct →
        (t.dropImpliedTypes rules).splitLines keepBlank =
            (t.splitLines keepBlank).map (dropImpliedTypes rules) ∧
          ∀ order : List Pass, order.Perm Pass.standardOrder →
            Pass.runAll rules keepBlank order t = t.normalize rules keepBlank) := by
  refine ⟨undash_dropImplied rules t, splitLines_undash keepBlank t, ?_⟩
  intro hrules hnames
  refine ⟨splitLines_dropImplied hrules keepBlank hnames, ?_⟩
  intro order hperm
  rw [Pass.runAll_perm keepBlank hrules hperm hnames, Pass.runAll_standardOrder]

def dashedMessage : Tree :=
  .keyed [(nameField, .leaf (.str "-a")), (typeField, .leaf (.str "Pattern")),
    ("elements", .seq [textElement "b\nc"])]

theorem passes_commute_dashedMessage :
    RuleTable.default.SparesText ∧ dashedMessage.NamesDistinct ∧
      Pass.runAll .default false [.splitLines, .undashNames, .dropImpliedTypes] dashedMessage =
        dashedMessage.normalize .default false := by
  have hnames : dashedMessage.NamesDistinct := by decide
  have hperm : [Pass.splitLines, .undashNames, .dropImpliedTypes].Perm Pass.standardOrder := by
    decide
  obtain ⟨-, -, hcommute⟩ := passes_commute .default false dashedMessage
  obtain ⟨-, horders⟩ := hcommute RuleTable.sparesText_default hnames
  exact ⟨RuleTable.sparesText_default, hnames, horders _ hperm⟩

end Tree

end FluentFixtures
