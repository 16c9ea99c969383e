import FluentFixtures.Proofs.Tree.Rebuild

/-!
# Properties of every node

`Tree.Every p` says that `p` holds of a tree and of every tree inside it. A
property of leaves and of the names of a node, `Tree.Node`, stays with a tree
through an edit that keeps it on leaf fields and on lines: `Every.rebuild`.
-/

namespace FluentFixtures.Tree

mutual

/-- Whether a property holds of a tree and of every tree inside it. -/
def Every (p : Tree → Prop) : Tree → Prop
  | .leaf value => p (.leaf value)
  | .seq items => p (.seq items) ∧ EveryItem p items
  | .keyed fields => p (.keyed fields) ∧ EveryField p fields

def EveryItem (p : Tree → Prop) : List Tree → Prop
  | [] => True
  | t :: rest => Every p t ∧ EveryItem p rest

def EveryField (p : Tree → Prop) : List (Text × Tree) → Prop
  | [] => True
  | (_, t) :: rest => Every p t ∧ EveryField p rest

end

theorem Every.here {p : Tree → Prop} {t : Tree} (h : t.Every p) : p t := by
  cases t with
  | leaf value => exact h
  | seq items => exact h.1
  | keyed fields => exact h.1

theorem everyItem_iff {p : Tree → Prop} {items : List Tree} :
    EveryItem p items ↔ ∀ t ∈ items, t.Every p := by
  induction items with
  | nil => simp [EveryItem]
  | cons t rest ih => simp [EveryItem, ih]

theorem everyField_iff {p : Tree → Prop} {fields : Fields} :
    EveryField p fields ↔ ∀ field ∈ fields, field.2.Every p := by
  induction fields with
  | nil => simp [EveryField]
  | cons field rest ih =>
    obtain ⟨name, t⟩ := field
    simp [EveryField, ih]

mutual

theorem every_of_forall {p : Tree → Prop} (h : ∀ t, p t) : ∀ t : Tree, t.Every p
  | .leaf _ => h _
  | .seq items => ⟨h _, everyItem_of_forall h items⟩
  | .keyed fields => ⟨h _, everyField_of_forall h fields⟩

theorem everyItem_of_forall {p : Tree → Prop} (h : ∀ t, p t) : ∀ items, EveryItem p items
  | [] => trivial
  | t :: rest => ⟨every_of_forall h t, everyItem_of_forall h rest⟩

theorem everyField_of_forall {p : Tree → Prop} (h : ∀ t, p t) : ∀ fields, EveryField p fields
  | [] => trivial
  | (_, t) :: rest => ⟨every_of_forall h t, everyField_of_forall h rest⟩

end

mutual

theorem Every.imp {p q : Tree → Prop} (hpq : ∀ t, t.Every p → q t) :
    ∀ {t : Tree}, t.Every p → t.Every q
  | .leaf _, h => hpq _ h
  | .seq _, h => ⟨hpq _ h, EveryItem.imp hpq h.2⟩
  | .keyed _, h => ⟨hpq _ h, EveryField.imp hpq h.2⟩

theorem EveryItem.imp {p q : Tree → Prop} (hpq : ∀ t, t.Every p → q t) :
    ∀ {items : List Tree}, EveryItem p items → EveryItem q items
  | [], _ => trivial
  | _ :: _, h => ⟨Every.imp hpq h.1, EveryItem.imp hpq h.2⟩

theorem EveryField.imp {p q : Tree → Prop} (hpq : ∀ t, t.Every p → q t) :
    ∀ {fields : List (Text × Tree)}, EveryField p fields → EveryField q fields
  | [], _ => trivial
  | (_, _) :: _, h => ⟨Every.imp hpq h.1, EveryField.imp hpq h.2⟩

end

mutual

def decideEvery {p : Tree → Prop} [DecidablePred p] : ∀ t : Tree, Decidable (t.Every p)
  | .leaf value => inferInstanceAs (Decidable (p (.leaf value)))
  | .seq items =>
    have := decideEveryItem (p := p) items
    inferInstanceAs (Decidable (p (.seq items) ∧ EveryItem p items))
  | .keyed fields =>
    have := decideEveryField (p := p) fields
    inferInstanceAs (Decidable (p (.keyed fields) ∧ EveryField p fields))

def decideEveryItem {p : Tree → Prop} [DecidablePred p] :
    ∀ items : List Tree, Decidable (EveryItem p items)
  | [] => inferInstanceAs (Decidable True)
  | t :: rest =>
    have := decideEvery (p := p) t
    have := decideEveryItem (p := p) rest
    inferInstanceAs (Decidable (Every p t ∧ EveryItem p rest))

def decideEveryField {p : Tree → Prop} [DecidablePred p] :
    ∀ fields : List (Text × Tree), Decidable (EveryField p fields)
  | [] => inferInstanceAs (Decidable True)
  | (_, t) :: rest =>
    have := decideEvery (p := p) t
    have := decideEveryField (p := p) rest
    inferInstanceAs (Decidable (Every p t ∧ EveryField p rest))

end

instance {p : Tree → Prop} [DecidablePred p] (t : Tree) : Decidable (t.Every p) := decideEvery t

/-- A property of a node that looks at leaves and at the names of fields. -/
def Node (leaf : Scalar → Prop) (names : List Text → Prop) : Tree → Prop
  | .leaf value => leaf value
  | .seq _ => True
  | .keyed fields => names (fields.map Prod.fst)

instance {leaf : Scalar → Prop} {names : List Text → Prop} [DecidablePred leaf]
    [DecidablePred names] : DecidablePred (Node leaf names)
  | .leaf value => inferInstanceAs (Decidable (leaf value))
  | .seq _ => inferInstanceAs (Decidable True)
  | .keyed fields => inferInstanceAs (Decidable (names (fields.map Prod.fst)))

/-- A property of a node that looks at the items of a sequence. -/
def Items (q : List Tree → Prop) : Tree → Prop
  | .seq items => q items
  | _ => True

def NamesDistinct (t : Tree) : Prop := t.Every (Node (fun _ => True) List.Nodup)

instance (t : Tree) : Decidable t.NamesDistinct :=
  inferInstanceAs (Decidable (t.Every (Node (fun _ => True) List.Nodup)))

/-! ## Edits -/

section Rebuild

variable {ε : Type} {r : Edit ε} {leaf : Scalar → Prop} {names : List Text → Prop}

theorem keep_sublist (f : LeafEdit) (key : ParentKey) (name : Text) (t : Tree) :
    ((f.keep key name t).map Prod.fst).Sublist [name] := by
  cases t with
  | leaf value => rw [LeafEdit.keep]; cases f name value key <;> simp
  | seq items => exact List.Sublist.refl _
  | keyed fields => exact List.Sublist.refl _

theorem rebuildFields_sublist {key : ParentKey} {fields fields' : Fields}
    (h : r.rebuildFields key fields = .ok fields') :
    (fields'.map Prod.fst).Sublist (fields.map Prod.fst) := by
  induction fields generalizing fields' with
  | nil => cases h; exact List.Sublist.refl _
  | cons field rest ih =>
    obtain ⟨name, t⟩ := field
    rw [Edit.rebuildFields] at h
    cases hrest : r.rebuildFields key rest with
    | error e => rw [hrest] at h; cases h
    | ok rest' =>
      rw [hrest] at h
      cases ht : r.rebuild (.field name) t with
      | error e => simp only [ht] at h; cases h
      | ok t' =>
        simp only [ht] at h
        cases h
        rw [List.map_append]
        exact (keep_sublist r.field key name t').append (ih hrest)

/-- An edit that keeps a property of nodes: on leaf fields, with fewer fields, and on the elements
of lines. -/
structure Keeps (r : Edit ε) (leaf : Scalar → Prop) (names : List Text → Prop) : Prop where
  field : ∀ {name value key value'}, leaf value → r.field name value key = some value' → leaf value'
  fewer : ∀ {fewer all : List Text}, fewer.Sublist all → names all → names fewer
  line : ∀ {t lines}, t.Every (Node leaf names) → r.item t = .ok (some lines) →
    ∀ line ∈ lines, (textElement line).Every (Node leaf names)

theorem Keeps.field_keep (hr : Keeps r leaf names) {key : ParentKey} {name : Text} {t : Tree} {rest : Fields}
    (ht : t.Every (Node leaf names)) (hrest : EveryField (Node leaf names) rest) :
    EveryField (Node leaf names) (LeafEdit.keep r.field key name t ++ rest) := by
  cases t with
  | leaf value =>
    rw [LeafEdit.keep]
    cases hvalue : r.field name value key with
    | none => exact hrest
    | some value' => exact ⟨hr.field ht hvalue, hrest⟩
  | seq items => exact ⟨ht, hrest⟩
  | keyed fields => exact ⟨ht, hrest⟩

theorem keepAll_sublist (f : LeafEdit) (key : ParentKey) (fields : Fields) :
    ((f.keepAll key fields).map Prod.fst).Sublist (fields.map Prod.fst) := by
  induction fields with
  | nil => exact List.Sublist.refl _
  | cons field rest ih =>
    rw [LeafEdit.keepAll, List.flatMap_cons, List.map_append]
    exact (keep_sublist f key field.1 field.2).append ih

theorem Keeps.keepAll (hr : Keeps r leaf names) (key : ParentKey) {fields : Fields}
    (h : EveryField (Node leaf names) fields) :
    EveryField (Node leaf names) (LeafEdit.keepAll r.field key fields) := by
  induction fields with
  | nil => trivial
  | cons field rest ih => exact hr.field_keep h.1 (ih h.2)

theorem Keeps.lineElement (hr : Keeps r leaf names) (key : ParentKey) {line : Text}
    (h : (textElement line).Every (Node leaf names)) :
    (r.lineElement key line).Every (Node leaf names) :=
  ⟨hr.fewer (keepAll_sublist r.field key _) h.1, hr.keepAll key h.2⟩

theorem Keeps.lineElements (hr : Keeps r leaf names) {index : Nat} {lines : List Text}
    {rest : List Tree} (hlines : ∀ line ∈ lines, (textElement line).Every (Node leaf names))
    (hrest : EveryItem (Node leaf names) rest) :
    EveryItem (Node leaf names) (r.lineElements index lines ++ rest) := by
  induction lines generalizing index with
  | nil => exact hrest
  | cons line more ih =>
    refine ⟨hr.lineElement _ (hlines line List.mem_cons_self), ih ?_⟩
    intro line hmem
    exact hlines line (List.mem_cons_of_mem _ hmem)

mutual

theorem Every.rebuild (hr : Keeps r leaf names) {key : ParentKey} :
    ∀ {t u : Tree}, t.Every (Node leaf names) → r.rebuild key t = .ok u →
      u.Every (Node leaf names)
  | .leaf _, _, h, hu => by cases hu; exact h
  | .seq items, _, h, hu => by
    rw [Edit.rebuild] at hu
    cases hfault : r.itemFault? items with
    | some e => rw [hfault] at hu; cases hu
    | none =>
      rw [hfault] at hu
      cases hitems : r.rebuildItems 0 items with
      | error e => simp only [hitems] at hu; cases hu
      | ok items' =>
        simp only [hitems] at hu
        cases hu
        exact ⟨trivial, EveryItem.rebuild hr h.2 hitems⟩
  | .keyed fields, _, h, hu => by
    rw [Edit.rebuild] at hu
    cases hfields : r.rebuildFields key fields with
    | error e => rw [hfields] at hu; cases hu
    | ok fields' =>
      rw [hfields] at hu
      cases hu
      exact ⟨hr.fewer (rebuildFields_sublist hfields) h.1, EveryField.rebuild hr h.2 hfields⟩

theorem EveryItem.rebuild (hr : Keeps r leaf names) {index : Nat} :
    ∀ {ts us : List Tree}, EveryItem (Node leaf names) ts → r.rebuildItems index ts = .ok us →
      EveryItem (Node leaf names) us
  | [], _, _, hu => by cases hu; trivial
  | t :: rest, _, h, hu => by
    rw [Edit.rebuildItems] at hu
    cases hitem : r.item t with
    | error e => rw [hitem] at hu; cases hu
    | ok lines? =>
      rw [hitem] at hu
      cases lines? with
      | some lines =>
        cases hrest : r.rebuildItems (index + lines.length) rest with
        | error e => simp only [hrest] at hu; cases hu
        | ok rest' =>
          simp only [hrest] at hu
          cases hu
          exact hr.lineElements (hr.line h.1 hitem) (EveryItem.rebuild hr h.2 hrest)
      | none =>
        cases hrest : r.rebuildItems (index + 1) rest with
        | error e => simp only [hrest, Edit.putFirst] at hu; cases hu
        | ok rest' =>
          cases ht : r.rebuild (.index index) t with
          | error e => simp only [hrest, ht, Edit.putFirst] at hu; cases hu
          | ok t' =>
            simp only [hrest, ht, Edit.putFirst] at hu
            cases hu
            exact ⟨Every.rebuild hr h.1 ht, EveryItem.rebuild hr h.2 hrest⟩

theorem EveryField.rebuild (hr : Keeps r leaf names) {key : ParentKey} :
    ∀ {fields fields' : List (Text × Tree)}, EveryField (Node leaf names) fields →
      r.rebuildFields key fields = .ok fields' → EveryField (Node leaf names) fields'
  | [], _, _, hu => by cases hu; trivial
  | (name, t) :: rest, _, h, hu => by
    rw [Edit.rebuildFields] at hu
    cases hrest : r.rebuildFields key rest with
    | error e => rw [hrest] at hu; cases hu
    | ok rest' =>
      rw [hrest] at hu
      cases ht : r.rebuild (.field name) t with
      | error e => simp only [ht] at hu; cases hu
      | ok t' =>
        simp only [ht] at hu
        cases hu
        exact hr.field_keep (Every.rebuild hr h.1 ht) (EveryField.rebuild hr h.2 hrest)

end

theorem Every.edit (hr : Keeps r leaf names) {t u : Tree} (ht : t.Every (Node leaf names))
    (h : t.edit r = .ok u) : u.Every (Node leaf names) := by
  rw [edit_eq_rebuild] at h
  exact ht.rebuild hr h

end Rebuild

end FluentFixtures.Tree
