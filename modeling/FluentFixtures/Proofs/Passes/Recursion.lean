import FluentFixtures.Proofs.Passes.Stable
import FluentFixtures.Proofs.Tree.Address
import FluentFixtures.Proofs.Tree.Rounds

/-!
# The walk as a recursion

Main statement: `edit_structural`. Whatever an edit does to fields and items, the
walk with a stack makes of a tree what a recursion on the tree makes of it, and
it takes a round for each container of the result. Taking dashes off is such a
walk: it takes the dash off the names that have one and leaves what stands at any
other address.
-/

namespace FluentFixtures

namespace Tree

/-! ## Names at addresses -/

/-- Whether a name that starts with a dash stands at an address, and `rest` follows the dash. -/
def DashedName (t : Tree) (p : Address) (rest : Text) : Prop :=
  (∃ q : Address, p = q ++ [.field nameField]) ∧ t.at? p = some (.leaf (.str (0x2D :: rest)))

theorem keepsAll_undashLeaf : LeafEdit.KeepsAll undashLeaf :=
  fun name value _ => undashField_isSome name value

theorem names_rewriteFields_of_keepsAll {f : LeafEdit} (hf : f.KeepsAll) (key : ParentKey)
    (fields : Fields) : (rewriteFields f key fields).map Prod.fst = fields.map Prod.fst := by
  induction fields with
  | nil => rfl
  | cons field rest ih =>
    obtain ⟨name, t⟩ := field
    rw [rewriteFields, List.map_append, ih, List.map_cons]
    cases t with
    | leaf value =>
      obtain ⟨value', hvalue⟩ := Option.isSome_iff_exists.mp (hf name value key)
      simp [rewrite, LeafEdit.keep, hvalue]
    | seq items => rfl
    | keyed fields => rfl

theorem head_rewrite_of_keepsAll {f : LeafEdit} (hf : f.KeepsAll) (key : ParentKey) (t : Tree) :
    (t.rewrite f key).head = t.head := by
  cases t with
  | leaf value => rfl
  | seq items => rw [rewrite, head, head, length_rewriteItems]
  | keyed fields => rw [rewrite, head, head, names_rewriteFields_of_keepsAll hf]

theorem at?_undashNames {t : Tree} {p : Address} {rest : Text} (h : t.DashedName p rest) :
    t.undashNames.at? p = some (.leaf (.str rest)) := by
  obtain ⟨⟨q, rfl⟩, hat⟩ := h
  rw [undashNames_eq_rewrite, at?_rewrite_concat (.inr keepsAll_undashLeaf), hat]
  rfl

theorem headAt?_undashNames {t : Tree} {p : Address} (h : ∀ rest, ¬ t.DashedName p rest) :
    t.undashNames.headAt? p = t.headAt? p := by
  rw [undashNames_eq_rewrite]
  rcases List.eq_nil_or_concat p with rfl | ⟨q, step, rfl⟩
  · exact congrArg some (head_rewrite_of_keepsAll keepsAll_undashLeaf .root t)
  · rw [List.concat_eq_append] at h ⊢
    cases hat : t.at? (q ++ [step]) with
    | none => rw [headAt?, headAt?, at?_rewrite_concat (.inr keepsAll_undashLeaf), hat]; rfl
    | some u =>
      have hkept (name : Text) (value : Scalar) (hstep : step = .field name)
          (hleaf : u = .leaf value) : undashLeaf name value (Address.key q) = some value := by
        subst hstep hleaf
        refine undashField_eq_self_iff.mpr fun rest hdash => ?_
        cases hdash
        exact h rest ⟨⟨q, rfl⟩, hat⟩
      rw [headAt?_rewrite_of_kept (.inr keepsAll_undashLeaf) hat hkept, headAt?, hat,
        head_rewrite_of_keepsAll keepsAll_undashLeaf, Option.map_some]

/-! ## The walk -/

/-- What the walk with a stack does, and what taking dashes off names does with it. -/
structure WalksAsRecursion {ε : Type} (r : Edit ε) (t : Tree) : Prop where
  recursion : t.edit r = r.rebuild .root t
  /-- A sequence becomes what its items give way to, with the containers of that rebuilt and not
  expanded again. -/
  sequence : ∀ key items, r.rebuild key (.seq items) =
    (r.expandAll items).bind fun children => (r.rebuildEach 0 children).map .seq
  /-- The loop always ends, in one way, and if it succeeds after a round for each container of the
  result. -/
  rounds : ∃ n, (∀ m result, r.Rounds m (t.job? .root).toList [] result ↔
      m = n ∧ result = r.walk (t.job? .root).toList []) ∧
    ∀ u, t.edit r = .ok u → n = u.containers
  undashed : ∀ p rest, t.DashedName p rest → t.undashNames.at? p = some (.leaf (.str rest))
  kept : ∀ p, (∀ rest, ¬ t.DashedName p rest) → t.undashNames.headAt? p = t.headAt? p

/-- The walk with a stack does what the recursion does, and always ends. Taking dashes off names
takes one dash off each name that has one, and changes nothing at other addresses. -/
theorem edit_structural {ε : Type} (r : Edit ε) (t : Tree) : t.WalksAsRecursion r := by
  constructor
  case recursion => exact edit_eq_rebuild r t
  case sequence => exact r.rebuild_seq
  case rounds =>
    obtain ⟨n, hn⟩ := Edit.rounds_iff r (t.job? .root).toList []
    refine ⟨n, hn, fun u hedit => ?_⟩
    exact Edit.rounds_eq_containers ((hn n _).mpr ⟨rfl, rfl⟩) hedit
  case undashed => exact fun _ _ => at?_undashNames
  case kept => exact fun _ => headAt?_undashNames

def dashedMessageSplit : Tree :=
  .keyed [(nameField, .leaf (.str "-a")), (typeField, .leaf (.str "Pattern")),
    ("elements", .seq [textElement "b\n", textElement "c"])]

theorem edit_structural_dashedMessage :
    dashedMessage.edit (splitEdit false) = .ok dashedMessageSplit ∧
      (splitEdit false).Rounds 4 (dashedMessage.job? .root).toList []
        ((splitEdit false).walk (dashedMessage.job? .root).toList []) ∧
      dashedMessage.DashedName [.field nameField] "a" ∧
      dashedMessage.undashNames.at? [.field nameField] = some (.leaf (.str "a")) := by
  have hsplit : dashedMessage.edit (splitEdit false) = .ok dashedMessageSplit := by
    have hrec : dashedMessage.split false = .ok dashedMessageSplit := rfl
    rw [← hrec, ← splitLines_eq_split]
    rfl
  have hname : dashedMessage.DashedName [.field nameField] "a" := ⟨⟨[], rfl⟩, rfl⟩
  have hwalk := edit_structural (splitEdit false) dashedMessage
  obtain ⟨n, hrounds, hcount⟩ := hwalk.rounds
  obtain rfl : n = 4 := hcount _ hsplit
  exact ⟨hsplit, (hrounds _ _).mpr ⟨rfl, rfl⟩, hname, hwalk.undashed _ _ hname⟩

end Tree

end FluentFixtures
