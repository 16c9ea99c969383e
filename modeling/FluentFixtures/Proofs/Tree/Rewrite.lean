import FluentFixtures.Proofs.Tree.Every

/-!
# Rewriting leaf fields

An edit that leaves the items of sequences alone cannot fail: `Tree.rewrite` is
what it makes of a tree. Two of them in a row are one, `rewrite_rewrite`, and one
that does not look at indexes treats all items of a sequence alike.
-/

namespace FluentFixtures

namespace LeafEdit

/-- One edit after the other. -/
def andThen (f g : LeafEdit) : LeafEdit := fun name value key =>
  (f name value key).bind (g name · key)

/-- An edit that does not look at the index of an item. -/
def IndexFree (f : LeafEdit) : Prop :=
  ∀ name value i j, f name value (.index i) = f name value (.index j)

end LeafEdit

namespace Tree

mutual

/-- The tree with its leaf fields changed and dropped, reached under a key. -/
def rewrite (f : LeafEdit) (key : ParentKey) : Tree → Tree
  | .leaf value => .leaf value
  | .seq items => .seq (rewriteItems f 0 items)
  | .keyed fields => .keyed (rewriteFields f key fields)

def rewriteItems (f : LeafEdit) (index : Nat) : List Tree → List Tree
  | [] => []
  | t :: rest => rewrite f (.index index) t :: rewriteItems f (index + 1) rest

def rewriteFields (f : LeafEdit) (key : ParentKey) : List (Text × Tree) → List (Text × Tree)
  | [] => []
  | (name, t) :: rest => f.keep key name (rewrite f (.field name) t) ++ rewriteFields f key rest

end

section Rebuild

variable {ε : Type} {r : Edit ε}

theorem itemFault?_eq_none (hitem : ∀ t, r.item t = .ok none) (items : List Tree) :
    r.itemFault? items = none := by
  induction items with
  | nil => rfl
  | cons t rest ih => rw [Edit.itemFault?, hitem]; exact ih

mutual

/-- An edit that leaves items alone rewrites leaf fields and does nothing else. -/
theorem rebuild_eq_rewrite (hitem : ∀ t, r.item t = .ok none) (key : ParentKey) :
    ∀ t, r.rebuild key t = .ok (t.rewrite r.field key)
  | .leaf _ => rfl
  | .seq items => by
    rw [Edit.rebuild, itemFault?_eq_none hitem, rebuildItems_eq_rewrite hitem]
    rfl
  | .keyed fields => by
    rw [Edit.rebuild, rebuildFields_eq_rewrite hitem]
    rfl

theorem rebuildItems_eq_rewrite (hitem : ∀ t, r.item t = .ok none) (index : Nat) :
    ∀ ts, r.rebuildItems index ts = .ok (rewriteItems r.field index ts)
  | [] => rfl
  | t :: rest => by
    rw [Edit.rebuildItems, hitem, rebuildItems_eq_rewrite hitem, rebuild_eq_rewrite hitem]
    rfl

theorem rebuildFields_eq_rewrite (hitem : ∀ t, r.item t = .ok none) (key : ParentKey) :
    ∀ fields, r.rebuildFields key fields = .ok (rewriteFields r.field key fields)
  | [] => rfl
  | (name, t) :: rest => by
    rw [Edit.rebuildFields, rebuildFields_eq_rewrite hitem, rebuild_eq_rewrite hitem]
    rfl

end

end Rebuild

/-! ## Edits in a row -/

theorem rewriteFields_append (f : LeafEdit) (key : ParentKey) (a b : Fields) :
    rewriteFields f key (a ++ b) = rewriteFields f key a ++ rewriteFields f key b := by
  induction a with
  | nil => rfl
  | cons field rest ih =>
    obtain ⟨name, t⟩ := field
    simp [rewriteFields, ih]

mutual

theorem rewrite_rewrite (f g : LeafEdit) (key : ParentKey) :
    ∀ t : Tree, (t.rewrite f key).rewrite g key = t.rewrite (f.andThen g) key
  | .leaf _ => rfl
  | .seq items => by
    rw [rewrite, rewrite, rewrite, rewriteItems_rewriteItems]
  | .keyed fields => by
    rw [rewrite, rewrite, rewrite, rewriteFields_rewriteFields]

theorem rewriteItems_rewriteItems (f g : LeafEdit) (index : Nat) :
    ∀ ts, rewriteItems g index (rewriteItems f index ts) = rewriteItems (f.andThen g) index ts
  | [] => rfl
  | t :: rest => by
    rw [rewriteItems, rewriteItems, rewriteItems, rewrite_rewrite, rewriteItems_rewriteItems]

theorem rewriteFields_rewriteFields (f g : LeafEdit) (key : ParentKey) :
    ∀ fields, rewriteFields g key (rewriteFields f key fields) =
      rewriteFields (f.andThen g) key fields
  | [] => rfl
  | (name, t) :: rest => by
    rw [rewriteFields, rewriteFields_append, rewriteFields_rewriteFields, rewriteFields]
    congr 1
    rw [← rewrite_rewrite f g (.field name) t]
    cases t with
    | leaf value =>
      simp only [rewrite, LeafEdit.keep, LeafEdit.andThen]
      cases f name value key with
      | none => rfl
      | some value' => simp [rewriteFields, rewrite, LeafEdit.keep]
    | seq items => simp [rewriteFields, rewrite, LeafEdit.keep]
    | keyed fields => simp [rewriteFields, rewrite, LeafEdit.keep]

end

theorem rewrite_comm {f g : LeafEdit} (h : f.andThen g = g.andThen f) (key : ParentKey) (t : Tree) :
    (t.rewrite f key).rewrite g key = (t.rewrite g key).rewrite f key := by
  rw [rewrite_rewrite, rewrite_rewrite, h]

/-! ## Fields of a rewritten node -/

theorem get?_cons (field : Text × Tree) (rest : Fields) (name : Text) :
    Fields.get? (field :: rest) name =
      if field.1 = name then some field.2 else Fields.get? rest name := by
  by_cases h : field.1 = name <;> simp [Fields.get?, h]

theorem mem_of_get? {fields : Fields} {name : Text} {t : Tree}
    (h : Fields.get? fields name = some t) : (name, t) ∈ fields := by
  induction fields with
  | nil => cases h
  | cons field rest ih =>
    rw [get?_cons] at h
    by_cases hname : field.1 = name
    · rw [if_pos hname] at h
      cases h
      rw [← hname]
      exact List.mem_cons_self
    · rw [if_neg hname] at h
      exact List.mem_cons_of_mem _ (ih h)

/-- With distinct names, a field is found where it is. -/
theorem get?_eq_some_iff {fields : Fields} (hnames : (fields.map Prod.fst).Nodup) {name : Text}
    {t : Tree} : Fields.get? fields name = some t ↔ (name, t) ∈ fields := by
  refine ⟨mem_of_get?, ?_⟩
  intro hmem
  induction fields with
  | nil => cases hmem
  | cons field rest ih =>
    rw [List.map_cons, List.nodup_cons] at hnames
    rw [get?_cons]
    rcases List.mem_cons.mp hmem with rfl | hmem
    · exact if_pos rfl
    · have hname : field.1 ≠ name := by
        rintro rfl
        exact hnames.1 (List.mem_map.mpr ⟨_, hmem, rfl⟩)
      rw [if_neg hname, ih hnames.2 hmem]

theorem keep_eq_nil_or (f : LeafEdit) (key : ParentKey) (name : Text) (t : Tree) :
    f.keep key name t = [] ∨ ∃ t', f.keep key name t = [(name, t')] := by
  cases t with
  | leaf value =>
    rw [LeafEdit.keep]
    cases f name value key with
    | none => exact .inl rfl
    | some value' => exact .inr ⟨_, rfl⟩
  | seq items => exact .inr ⟨_, rfl⟩
  | keyed fields => exact .inr ⟨_, rfl⟩

theorem keep_container (f : LeafEdit) (key : ParentKey) (name : Text) {t : Tree}
    (ht : t.kind ≠ .leaf) : f.keep key name t = [(name, t)] := by
  cases t with
  | leaf value => exact absurd rfl ht
  | seq items => rfl
  | keyed fields => rfl

theorem kind_rewrite (f : LeafEdit) (key : ParentKey) (t : Tree) :
    (t.rewrite f key).kind = t.kind := by
  cases t <;> rfl

/-- A field that the edit leaves alone if it is a leaf is found as before, rewritten. -/
theorem get?_rewriteFields {f : LeafEdit} {key : ParentKey} {name : Text}
    (h : ∀ value, f name value key = some value) (fields : Fields) :
    Fields.get? (rewriteFields f key fields) name =
      (Fields.get? fields name).map (rewrite f (.field name)) := by
  induction fields with
  | nil => rfl
  | cons field rest ih =>
    obtain ⟨name', t⟩ := field
    rw [rewriteFields, get?_cons]
    by_cases hname : name' = name
    · subst hname
      cases t with
      | leaf value => simp [rewrite, LeafEdit.keep, h, get?_cons]
      | seq items => simp [rewrite, LeafEdit.keep, get?_cons]
      | keyed fields => simp [rewrite, LeafEdit.keep, get?_cons]
    · rw [if_neg hname]
      rcases keep_eq_nil_or f key name' (rewrite f (.field name') t) with hkeep | ⟨t', hkeep⟩
      · rw [hkeep, List.nil_append, ih]
      · rw [hkeep, List.singleton_append, get?_cons, if_neg hname, ih]

theorem rewriteFields_sublist (f : LeafEdit) (key : ParentKey) (fields : Fields) :
    ((rewriteFields f key fields).map Prod.fst).Sublist (fields.map Prod.fst) := by
  induction fields with
  | nil => exact List.Sublist.refl _
  | cons field rest ih =>
    obtain ⟨name, t⟩ := field
    rw [rewriteFields, List.map_append]
    exact (keep_sublist f key name _).append ih

theorem mem_rewriteFields_leaf {f : LeafEdit} {key : ParentKey} {fields : Fields} {name : Text}
    {value : Scalar} :
    (name, .leaf value) ∈ rewriteFields f key fields ↔
      ∃ old, (name, .leaf old) ∈ fields ∧ f name old key = some value := by
  induction fields with
  | nil => simp [rewriteFields]
  | cons field rest ih =>
    obtain ⟨name', t⟩ := field
    rw [rewriteFields, List.mem_append, ih]
    cases t with
    | leaf old =>
      simp only [rewrite, LeafEdit.keep]
      cases hf : f name' old key <;> grind
    | seq items => simp [rewrite, LeafEdit.keep]
    | keyed fields => simp [rewrite, LeafEdit.keep]

/-! ## Items -/

theorem rewriteFields_index {f : LeafEdit} (hf : f.IndexFree) (i j : Nat) (fields : Fields) :
    rewriteFields f (.index i) fields = rewriteFields f (.index j) fields := by
  induction fields with
  | nil => rfl
  | cons field rest ih =>
    obtain ⟨name, t⟩ := field
    rw [rewriteFields, rewriteFields, ih]
    cases t with
    | leaf value => simp only [rewrite, LeafEdit.keep, hf name value i j]
    | seq items => rfl
    | keyed fields => rfl

theorem rewrite_index {f : LeafEdit} (hf : f.IndexFree) (i j : Nat) (t : Tree) :
    t.rewrite f (.index i) = t.rewrite f (.index j) := by
  cases t with
  | leaf value => rfl
  | seq items => rfl
  | keyed fields => rw [rewrite, rewrite, rewriteFields_index hf i j]

/-- An edit that does not look at indexes does the same to every item. -/
theorem rewriteItems_eq_map {f : LeafEdit} (hf : f.IndexFree) (index : Nat) (ts : List Tree) :
    rewriteItems f index ts = ts.map (rewrite f (.index 0)) := by
  induction ts generalizing index with
  | nil => rfl
  | cons t rest ih => rw [rewriteItems, ih, rewrite_index hf index 0]; rfl

mutual

/-- What holds of rewritten items holds of all sequences of a rewritten tree. -/
theorem every_rewrite {f : LeafEdit} (hf : f.IndexFree) {q : List Tree → Prop}
    (hq : ∀ items : List Tree, q (items.map (rewrite f (.index 0)))) (key : ParentKey) :
    ∀ t : Tree, (t.rewrite f key).Every (Items q)
  | .leaf _ => trivial
  | .seq items => by
    refine ⟨?_, everyItem_rewriteItems hf hq 0 items⟩
    rw [rewriteItems_eq_map hf]
    exact hq items
  | .keyed fields => ⟨trivial, everyField_rewriteFields hf hq key fields⟩

theorem everyItem_rewriteItems {f : LeafEdit} (hf : f.IndexFree) {q : List Tree → Prop}
    (hq : ∀ items : List Tree, q (items.map (rewrite f (.index 0)))) (index : Nat) :
    ∀ ts, EveryItem (Items q) (rewriteItems f index ts)
  | [] => trivial
  | t :: rest =>
    ⟨every_rewrite hf hq (.index index) t, everyItem_rewriteItems hf hq (index + 1) rest⟩

theorem everyField_rewriteFields {f : LeafEdit} (hf : f.IndexFree) {q : List Tree → Prop}
    (hq : ∀ items : List Tree, q (items.map (rewrite f (.index 0)))) (key : ParentKey) :
    ∀ fields, EveryField (Items q) (rewriteFields f key fields)
  | [] => trivial
  | (name, t) :: rest => by
    have ht := every_rewrite hf hq (.field name) t
    have hrest := everyField_rewriteFields hf hq key rest
    rw [rewriteFields]
    cases t with
    | leaf value =>
      rw [rewrite, LeafEdit.keep]
      cases f name value key with
      | none => exact hrest
      | some value' => exact ⟨trivial, hrest⟩
    | seq items => exact ⟨ht, hrest⟩
    | keyed fields => exact ⟨ht, hrest⟩

end

end Tree

end FluentFixtures
