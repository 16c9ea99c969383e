import FluentFixtures.Proofs.Tree.Rewrite

/-!
# Addresses in a tree

An address is the steps from the root to a node: `Tree.at?` follows them, and
`Tree.head` is what stands at a node without the trees inside it. Trees with the
same heads at all addresses are equal, `ext_headAt?`. What a rewriting leaves at
an address depends on what was there and on the key that the node there was
reached under, `at?_rewrite_concat`; a rewriting that only drops fields leaves
the tree without them and everything else, `without_rewrite`.
-/

namespace FluentFixtures

namespace Tree

/-- A step into a container: to the field of a name, or to the item at an index. -/
inductive Step where
  | field (name : Text)
  | item (index : Nat)
  deriving DecidableEq, Repr

/-- The steps from the root of a tree to a node of it. -/
abbrev Address := List Step

/-- The key that a node is reached under by the step. -/
def Step.key : Step → ParentKey
  | field name => .field name
  | item index => .index index

/-- The key that the node at an address is reached under, where the start has a key. -/
def Address.keyFrom (key : ParentKey) (p : Address) : ParentKey :=
  (p.getLast?.map Step.key).getD key

def Address.key (p : Address) : ParentKey := p.keyFrom .root

def child? : Tree → Step → Option Tree
  | .keyed fields, .field name => Fields.get? fields name
  | .seq items, .item index => items[index]?
  | _, _ => none

def at? (t : Tree) : Address → Option Tree
  | [] => some t
  | step :: rest => (t.child? step).bind fun u => u.at? rest

/-- What stands at a node without the trees inside it. -/
inductive Head where
  | leaf (value : Scalar)
  | seq (length : Nat)
  | keyed (names : List Text)
  deriving DecidableEq, Repr

def head : Tree → Head
  | .leaf value => .leaf value
  | .seq items => .seq items.length
  | .keyed fields => .keyed (fields.map Prod.fst)

def headAt? (t : Tree) (p : Address) : Option Head := (t.at? p).map head

open Classical in
/-- The head of a node that has lost the fields with certain names. -/
noncomputable def Head.without (gone : Text → Prop) : Head → Head
  | keyed names => keyed (names.filter fun name => ¬ gone name)
  | other => other

open Classical in
/-- Whether a tree is left of another when the fields at certain addresses go: nothing stands at
these, and everywhere else stands what stood there, the other fields in their order. -/
def Without (t u : Tree) (gone : Address → Prop) : Prop :=
  ∀ p, u.headAt? p =
    if gone p then none else (t.headAt? p).map (Head.without fun name => gone (p ++ [.field name]))

@[simp] theorem Address.key_concat (p : Address) (step : Step) :
    Address.key (p ++ [step]) = step.key := by
  simp [Address.key, Address.keyFrom]

theorem Address.keyFrom_cons (key : ParentKey) (first : Step) (rest : Address) :
    Address.keyFrom key (first :: rest) = Address.keyFrom first.key rest := by
  cases hlast : rest.getLast? <;> simp [Address.keyFrom, List.getLast?_cons, hlast]

@[simp] theorem at?_nil (t : Tree) : t.at? [] = some t := rfl

theorem at?_append (t : Tree) (p q : Address) :
    t.at? (p ++ q) = (t.at? p).bind fun u => u.at? q := by
  induction p generalizing t with
  | nil => rfl
  | cons step rest ih =>
    rw [List.cons_append, at?, at?]
    cases t.child? step with
    | none => rfl
    | some u => exact ih u

theorem at?_singleton (t : Tree) (step : Step) : t.at? [step] = t.child? step := by
  rw [at?]
  cases t.child? step <;> rfl

theorem at?_concat (t : Tree) (p : Address) (step : Step) :
    t.at? (p ++ [step]) = (t.at? p).bind fun u => u.child? step := by
  simp only [at?_append, at?_singleton]

theorem at?_leaf_concat (value : Scalar) (p : Address) (step : Step) :
    (leaf value).at? (p ++ [step]) = none := by
  cases p <;> rfl

theorem Every.child? {q : Tree → Prop} {t u : Tree} (h : t.Every q) {step : Step}
    (hu : t.child? step = some u) : u.Every q := by
  cases t with
  | leaf value => cases hu
  | seq items =>
    cases step with
    | field name => cases hu
    | item index => exact everyItem_iff.mp h.2 u (List.mem_of_getElem? hu)
  | keyed fields =>
    cases step with
    | field name => exact everyField_iff.mp h.2 _ (mem_of_get? hu)
    | item index => cases hu

theorem NamesDistinct.child? {t u : Tree} (h : t.NamesDistinct) {step : Step}
    (hu : t.child? step = some u) : u.NamesDistinct := Every.child? h hu

theorem NamesDistinct.at? {t u : Tree} (h : t.NamesDistinct) {p : Address}
    (hu : t.at? p = some u) : u.NamesDistinct := by
  induction p generalizing t with
  | nil => cases hu; exact h
  | cons step rest ih =>
    obtain ⟨v, hv, hu⟩ := Option.bind_eq_some_iff.mp hu
    exact ih (h.child? hv) hu

/-! ## Heads determine the tree -/

theorem get?_isSome_iff {fields : Fields} {name : Text} :
    (Fields.get? fields name).isSome ↔ name ∈ fields.map Prod.fst := by
  induction fields with
  | nil => simp [Fields.get?]
  | cons field rest ih =>
    rw [get?_cons, List.map_cons, List.mem_cons]
    by_cases h : field.1 = name
    · simp [h]
    · rw [if_neg h, ih]
      simp [Ne.symm h]

theorem get?_eq_none_iff {fields : Fields} {name : Text} :
    Fields.get? fields name = none ↔ name ∉ fields.map Prod.fst := by
  rw [← get?_isSome_iff, Option.not_isSome_iff_eq_none]

theorem headAt?_cons (t : Tree) (step : Step) (rest : Address) :
    t.headAt? (step :: rest) = (t.child? step).bind fun u => u.headAt? rest := by
  rw [headAt?, at?]
  cases t.child? step <;> rfl

mutual

theorem ext_headAt? : ∀ {t u : Tree}, t.NamesDistinct → u.NamesDistinct →
    (∀ p, t.headAt? p = u.headAt? p) → t = u
  | .leaf value, u, _, _, h => by
    have hhead := h []
    cases u <;> simp_all [headAt?, head]
  | .seq items, u, ht, hu, h => by
    cases u with
    | leaf value => cases h []
    | keyed fields => cases h []
    | seq items' =>
      have hlength : items.length = items'.length := by simpa [headAt?, head] using h []
      rw [ext_items ht.2 hu.2 hlength fun index p => ?_]
      have hitem := h (.item index :: p)
      rwa [headAt?_cons, headAt?_cons] at hitem
  | .keyed fields, u, ht, hu, h => by
    cases u with
    | leaf value => cases h []
    | seq items => cases h []
    | keyed fields' =>
      have hnames : fields.map Prod.fst = fields'.map Prod.fst := by simpa [headAt?, head] using h []
      rw [ext_fields ht.1 ht.2 hu.2 hnames fun name p => ?_]
      have hfield := h (.field name :: p)
      rwa [headAt?_cons, headAt?_cons] at hfield

theorem ext_items : ∀ {ts us : List Tree}, EveryItem (Node (fun _ => True) List.Nodup) ts →
    EveryItem (Node (fun _ => True) List.Nodup) us → ts.length = us.length →
    (∀ (index : Nat) p,
      (ts[index]?.bind fun t => t.headAt? p) = us[index]?.bind fun u => u.headAt? p) →
    ts = us
  | [], us, _, _, hlength, _ => (List.length_eq_zero_iff.mp hlength.symm).symm
  | t :: rest, us, ht, hu, hlength, h => by
    cases us with
    | nil => cases hlength
    | cons u more =>
      rw [ext_headAt? ht.1 hu.1 (h 0), ext_items ht.2 hu.2 (Nat.succ.inj hlength) fun index =>
        h (index + 1)]

theorem ext_fields : ∀ {fields fields' : List (Text × Tree)}, (fields.map Prod.fst).Nodup →
    EveryField (Node (fun _ => True) List.Nodup) fields →
    EveryField (Node (fun _ => True) List.Nodup) fields' →
    fields.map Prod.fst = fields'.map Prod.fst →
    (∀ name p, ((Fields.get? fields name).bind fun t => t.headAt? p) =
      (Fields.get? fields' name).bind fun u => u.headAt? p) →
    fields = fields'
  | [], fields', _, _, _, hnames, _ => (List.map_eq_nil_iff.mp hnames.symm).symm
  | (name, t) :: rest, fields', hnodup, ht, hu, hnames, h => by
    cases fields' with
    | nil => cases hnames
    | cons field more =>
      obtain ⟨name', u⟩ := field
      obtain ⟨rfl, hrest⟩ := List.cons.inj hnames
      obtain ⟨hfresh, hnodup⟩ := List.nodup_cons.mp hnodup
      have hfirst : t = u := ext_headAt? ht.1 hu.1 fun p => by simpa [get?_cons] using h name p
      have hmore : rest = more := by
        refine ext_fields hnodup ht.2 hu.2 hrest fun other p => ?_
        by_cases hother : name = other
        · subst hother
          rw [get?_eq_none_iff.mpr hfresh, get?_eq_none_iff.mpr (hrest ▸ hfresh)]
        · simpa [get?_cons, hother] using h other p
      rw [hfirst, hmore]

end

end Tree

/-! ## Rewritten trees -/

namespace LeafEdit

/-- Whether an edit drops no field. -/
def KeepsAll (f : LeafEdit) : Prop := ∀ name value key, (f name value key).isSome

/-- What a rewriting makes of a tree that is a step away from a node reached under a key. -/
def child (f : LeafEdit) (key : ParentKey) : Tree.Step → Tree → Option Tree
  | .field name, .leaf value => (f name value key).map .leaf
  | step, t => some (t.rewrite f step.key)

/-- A child is rewritten as a tree of its own, unless it is a leaf field that the edit changes. -/
theorem child_of_kept {f : LeafEdit} {key : ParentKey} {step : Tree.Step} {t : Tree}
    (h : ∀ name value, step = .field name → t = .leaf value → f name value key = some value) :
    f.child key step t = some (t.rewrite f step.key) := by
  cases t with
  | leaf value =>
    cases step with
    | field name => rw [child, h name value rfl rfl]; rfl
    | item index => rfl
  | seq items => cases step <;> rfl
  | keyed fields => cases step <;> rfl

theorem child_container (f : LeafEdit) (key : ParentKey) (step : Tree.Step) {t : Tree}
    (ht : t.kind ≠ .leaf) : f.child key step t = some (t.rewrite f step.key) := by
  refine child_of_kept fun _ value _ hleaf => ?_
  subst hleaf
  exact absurd rfl ht

end LeafEdit

namespace Tree

variable {f : LeafEdit}

theorem getElem?_rewriteItems (f : LeafEdit) (start : Nat) (ts : List Tree) (index : Nat) :
    (rewriteItems f start ts)[index]? = ts[index]?.map (rewrite f (.index (start + index))) := by
  induction ts generalizing start index with
  | nil => rfl
  | cons t rest ih =>
    rw [rewriteItems]
    cases index with
    | zero => rfl
    | succ index =>
      rw [List.getElem?_cons_succ, List.getElem?_cons_succ, ih, Nat.add_assoc, Nat.add_comm 1]

/-- A field of a rewritten node is what the edit leaves of it. With distinct names no other field
comes to light behind one that is dropped. -/
theorem get?_rewriteFields_child {key : ParentKey} {fields : Fields}
    (h : (fields.map Prod.fst).Nodup ∨ f.KeepsAll) (name : Text) :
    Fields.get? (rewriteFields f key fields) name =
      (Fields.get? fields name).bind (f.child key (.field name)) := by
  induction fields with
  | nil => rfl
  | cons field rest ih =>
    obtain ⟨name', t⟩ := field
    have hrest := ih (h.imp_left fun h => (List.nodup_cons.mp h).2)
    rw [rewriteFields, get?_cons]
    by_cases hname : name' = name
    · subst hname
      rw [if_pos rfl, Option.bind_some]
      cases t with
      | leaf value =>
        rw [rewrite, LeafEdit.keep, LeafEdit.child]
        cases hvalue : f name' value key with
        | some value' => simp [get?_cons]
        | none =>
          have hdistinct := h.resolve_right fun h => by simpa [hvalue] using h name' value key
          rw [List.nil_append, hrest, get?_eq_none_iff.mpr (List.nodup_cons.mp hdistinct).1]
          rfl
      | seq items => simp [rewrite, LeafEdit.keep, LeafEdit.child, get?_cons]
      | keyed fields => simp [rewrite, LeafEdit.keep, LeafEdit.child, get?_cons, Step.key]
    · rw [if_neg hname, ← hrest]
      rcases keep_eq_nil_or f key name' (rewrite f (.field name') t) with hkeep | ⟨t', hkeep⟩
      · rw [hkeep, List.nil_append]
      · rw [hkeep, List.singleton_append, get?_cons, if_neg hname]

theorem child?_rewrite {t : Tree} (h : t.NamesDistinct ∨ f.KeepsAll) (key : ParentKey)
    (step : Step) : (t.rewrite f key).child? step = (t.child? step).bind (f.child key step) := by
  cases t with
  | leaf value => rfl
  | seq items =>
    cases step with
    | field name => rfl
    | item index =>
      rw [rewrite, child?, child?, getElem?_rewriteItems, Nat.zero_add]
      cases items[index]? with
      | none => rfl
      | some t => cases t <;> rfl
  | keyed fields =>
    cases step with
    | field name => exact get?_rewriteFields_child (h.imp_left And.left) name
    | item index => rfl

/-- What a rewriting leaves at an address below the root. -/
theorem at?_rewrite_concat {t : Tree} (h : t.NamesDistinct ∨ f.KeepsAll) (key : ParentKey)
    (p : Address) (step : Step) :
    (t.rewrite f key).at? (p ++ [step]) =
      (t.at? (p ++ [step])).bind (f.child (p.keyFrom key) step) := by
  induction p generalizing t key with
  | nil =>
    rw [List.nil_append, at?_singleton, at?_singleton, child?_rewrite h]
    rfl
  | cons first rest ih =>
    rw [List.cons_append, at?, at?, child?_rewrite h, Address.keyFrom_cons]
    cases hu : t.child? first with
    | none => rfl
    | some u =>
      rw [Option.bind_some, Option.bind_some]
      by_cases hleaf : u.kind = .leaf
      · cases u with
        | leaf value =>
          rw [at?_leaf_concat]
          cases hchild : f.child key first (.leaf value) with
          | none => rfl
          | some u' =>
            cases first with
            | field name =>
              obtain ⟨value', -, rfl⟩ := Option.map_eq_some_iff.mp hchild
              exact at?_leaf_concat value' rest step
            | item index => cases hchild; exact at?_leaf_concat value rest step
        | seq items => cases hleaf
        | keyed fields => cases hleaf
      · have hu' : u.NamesDistinct ∨ f.KeepsAll := h.imp_left fun h => h.child? hu
        rw [f.child_container key first hleaf, Option.bind_some, ih hu']

/-- Where the edit changes no leaf field, the head is that of the rewritten tree. -/
theorem headAt?_rewrite_of_kept {t u : Tree} (h : t.NamesDistinct ∨ f.KeepsAll) {p : Address}
    {step : Step} (hat : t.at? (p ++ [step]) = some u)
    (hkept : ∀ name value, step = .field name → u = .leaf value →
      f name value (Address.key p) = some value) :
    (t.rewrite f .root).headAt? (p ++ [step]) = some (u.rewrite f step.key).head := by
  have hchild : f.child (Address.keyFrom .root p) step u = some (u.rewrite f step.key) :=
    LeafEdit.child_of_kept hkept
  rw [headAt?, at?_rewrite_concat h, hat, Option.bind_some, hchild, Option.map_some]

/-! ## Dropped fields -/

/-- Whether a leaf field stands at an address and the edit drops it. -/
def DroppedBy (f : LeafEdit) (t : Tree) (p : Address) : Prop :=
  ∃ (q : Address) (name : Text) (value : Scalar),
    p = q ++ [.field name] ∧ t.at? p = some (.leaf value) ∧ f name value q.key = none

theorem not_droppedBy_nil (t : Tree) : ¬ t.DroppedBy f [] := by
  rintro ⟨q, name, value, hp, -⟩
  exact List.append_ne_nil_of_right_ne_nil q (List.cons_ne_nil _ _) hp.symm

theorem droppedBy_concat {t : Tree} {p : Address} {step : Step} :
    t.DroppedBy f (p ++ [step]) ↔ ∃ name value,
      step = .field name ∧ t.at? (p ++ [step]) = some (.leaf value) ∧ f name value p.key = none := by
  constructor
  · rintro ⟨q, name, value, hp, hat, hdrop⟩
    obtain ⟨rfl, hstep⟩ := List.append_inj' hp rfl
    exact ⟨name, value, List.head_eq_of_cons_eq hstep, hat, hdrop⟩
  · rintro ⟨name, value, rfl, hat, hdrop⟩
    exact ⟨p, name, value, rfl, hat, hdrop⟩

theorem droppedBy_field {t : Tree} {p : Address} {fields : Fields}
    (hat : t.at? p = some (.keyed fields)) (name : Text) :
    t.DroppedBy f (p ++ [.field name]) ↔
      ∃ value, Fields.get? fields name = some (.leaf value) ∧ f name value p.key = none := by
  rw [droppedBy_concat, at?_concat, hat, Option.bind_some, child?]
  constructor
  · rintro ⟨name', value, hstep, hget, hdrop⟩
    cases hstep
    exact ⟨value, hget, hdrop⟩
  · rintro ⟨value, hget, hdrop⟩
    exact ⟨name, value, rfl, hget, hdrop⟩

open Classical in
theorem names_rewriteFields (f : LeafEdit) (key : ParentKey) {fields : Fields}
    (h : (fields.map Prod.fst).Nodup) :
    (rewriteFields f key fields).map Prod.fst = (fields.map Prod.fst).filter fun name =>
      ¬ ∃ value, Fields.get? fields name = some (.leaf value) ∧ f name value key = none := by
  induction fields with
  | nil => rfl
  | cons field rest ih =>
    obtain ⟨name, t⟩ := field
    obtain ⟨hfresh, hrest⟩ := List.nodup_cons.mp h
    have hlater : (rest.map Prod.fst).filter (fun name' => ¬ ∃ value,
          Fields.get? ((name, t) :: rest) name' = some (.leaf value) ∧ f name' value key = none) =
        (rewriteFields f key rest).map Prod.fst := by
      rw [ih hrest]
      refine List.filter_congr fun name' hmem => ?_
      have hne : name ≠ name' := fun e => hfresh (e ▸ hmem)
      simp only [get?_cons, if_neg hne]
    rw [List.map_cons, List.filter_cons, hlater, rewriteFields, List.map_append, get?_cons,
      if_pos rfl]
    cases t with
    | leaf value =>
      rw [rewrite, LeafEdit.keep]
      cases hvalue : f name value key <;> simp [hvalue]
    | seq items => simp [rewrite, LeafEdit.keep]
    | keyed fields => simp [rewrite, LeafEdit.keep]

theorem length_rewriteItems (f : LeafEdit) (start : Nat) (ts : List Tree) :
    (rewriteItems f start ts).length = ts.length := by
  induction ts generalizing start with
  | nil => rfl
  | cons t rest ih => rw [rewriteItems, List.length_cons, ih, List.length_cons]

/-- What a rewriting leaves of the head of a node at an address. -/
theorem head_rewrite_at {t u : Tree} (hu : u.NamesDistinct) {p : Address} (hat : t.at? p = some u) :
    (u.rewrite f p.key).head = u.head.without fun name => t.DroppedBy f (p ++ [.field name]) := by
  cases u with
  | leaf value => rfl
  | seq items => simp [rewrite, head, Head.without, length_rewriteItems]
  | keyed fields =>
    rw [rewrite, head, head, Head.without, names_rewriteFields f p.key hu.1]
    refine congrArg Head.keyed (List.filter_congr fun name _ => ?_)
    rw [decide_eq_decide, droppedBy_field hat]

/-- A rewriting that changes no leaf leaves the tree without the fields that it drops. -/
theorem without_rewrite {t : Tree} (h : t.NamesDistinct)
    (hf : ∀ {name value key value'}, f name value key = some value' → value' = value) :
    t.Without (t.rewrite f .root) (t.DroppedBy f) := by
  intro p
  rcases List.eq_nil_or_concat p with rfl | ⟨q, step, rfl⟩
  · rw [if_neg (not_droppedBy_nil t), headAt?, headAt?, at?_nil, at?_nil, Option.map_some,
      Option.map_some]
    exact congrArg some (head_rewrite_at (p := []) h rfl)
  · rw [List.concat_eq_append]
    by_cases hgone : t.DroppedBy f (q ++ [step])
    · obtain ⟨name, value, rfl, hleaf, hdrop⟩ := droppedBy_concat.mp hgone
      rw [if_pos hgone, headAt?, at?_rewrite_concat (.inl h), hleaf]
      exact congrArg (Option.map head) (congrArg (Option.map leaf) hdrop)
    · rw [if_neg hgone]
      cases hat : t.at? (q ++ [step]) with
      | none => rw [headAt?, headAt?, at?_rewrite_concat (.inl h), hat]; rfl
      | some u =>
        have hkept (name : Text) (value : Scalar) (hstep : step = .field name)
            (hleaf : u = .leaf value) : f name value (Address.key q) = some value := by
          subst hstep hleaf
          cases hvalue : f name value (Address.key q) with
          | none => exact absurd (droppedBy_concat.mpr ⟨name, value, rfl, hat, hvalue⟩) hgone
          | some value' => rw [hf hvalue]
        rw [headAt?_rewrite_of_kept (.inl h) hat hkept, headAt?, hat, Option.map_some,
          Option.map_some, ← Address.key_concat q step, head_rewrite_at (h.at? hat) hat]

/-- Without certain fields a tree is left in one way only. -/
theorem Without.unique {t u u' : Tree} {gone : Address → Prop} (h : t.Without u gone)
    (h' : t.Without u' gone) (hu : u.NamesDistinct) (hu' : u'.NamesDistinct) : u = u' :=
  ext_headAt? hu hu' fun p => by rw [h p, h' p]

end Tree

end FluentFixtures
