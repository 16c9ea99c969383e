import FluentFixtures.Proofs.Tree.Address

/-!
# Replacing a tree at an address

`Tree.setAt` puts another tree in place of the one at an address. A container
then has the new child in the place of the old one and all others as they were:
`exists_set`, `exists_put`. A property of nodes that holds of both trees holds
of the result.
-/

namespace FluentFixtures.Tree

/-- The container with another tree in place of the child that is a step away. -/
def setChild (t : Tree) (step : Step) (child : Tree) : Tree :=
  match t, step with
  | .keyed fields, .field name => .keyed (Fields.put fields name child)
  | .seq items, .item index => .seq (items.set index child)
  | t, _ => t

/-- The tree with another one in place of that at an address; the same if there is none. -/
def setAt (t : Tree) (p : Address) (new : Tree) : Tree :=
  match p with
  | [] => new
  | step :: rest =>
    match t.child? step with
    | some child => t.setChild step (child.setAt rest new)
    | none => t

theorem setAt_cons {t child : Tree} {step : Step} (h : t.child? step = some child) (p : Address)
    (new : Tree) : t.setAt (step :: p) new = t.setChild step (child.setAt p new) := by
  rw [setAt, h]

theorem exists_set {items : List Tree} {index : Nat} {t : Tree} (h : items[index]? = some t) :
    ∃ before after, items = before ++ t :: after ∧
      ∀ u, items.set index u = before ++ u :: after := by
  obtain ⟨hlt, rfl⟩ := List.getElem?_eq_some_iff.mp h
  refine ⟨items.take index, items.drop (index + 1), ?_, fun u => ?_⟩
  · rw [← List.drop_eq_getElem_cons hlt, List.take_append_drop]
  · rw [List.set_eq_take_append_cons_drop, if_pos hlt]

theorem exists_put {fields : Fields} {name : Text} {t : Tree}
    (h : Fields.get? fields name = some t) :
    ∃ before after, fields = before ++ (name, t) :: after ∧
      ∀ u, Fields.put fields name u = before ++ (name, u) :: after := by
  induction fields with
  | nil => cases h
  | cons field rest ih =>
    rw [get?_cons] at h
    by_cases hname : field.1 = name
    · rw [if_pos hname] at h
      obtain rfl := Option.some.inj h
      subst hname
      exact ⟨[], rest, rfl, fun u => by rw [Fields.put, if_pos rfl]; rfl⟩
    · rw [if_neg hname] at h
      obtain ⟨before, after, rfl, hput⟩ := ih h
      refine ⟨field :: before, after, rfl, fun u => ?_⟩
      rw [Fields.put, if_neg hname, hput, List.cons_append]

theorem get?_put (fields : Fields) (name : Text) (t : Tree) :
    Fields.get? (Fields.put fields name t) name = some t := by
  induction fields with
  | nil => rw [Fields.put, get?_cons, if_pos rfl]
  | cons field rest ih =>
    rw [Fields.put]
    split
    · rw [get?_cons, if_pos rfl]
    · next hname => rw [get?_cons, if_neg hname, ih]

theorem child?_setChild {t child : Tree} {step : Step} (h : t.child? step = some child)
    (new : Tree) : (t.setChild step new).child? step = some new := by
  cases t with
  | leaf value => cases h
  | seq items =>
    cases step with
    | field name => cases h
    | item index => exact List.getElem?_set_self (List.getElem?_eq_some_iff.mp h).1
  | keyed fields =>
    cases step with
    | field name => exact get?_put fields name new
    | item index => cases h

theorem at?_setAt {t old : Tree} {p : Address} (h : t.at? p = some old) (new : Tree) :
    (t.setAt p new).at? p = some new := by
  induction p generalizing t with
  | nil => rfl
  | cons step rest ih =>
    obtain ⟨child, hchild, hold⟩ := Option.bind_eq_some_iff.mp h
    rw [setAt_cons hchild, at?, child?_setChild hchild, Option.bind_some]
    exact ih hold

/-! ## Properties of every node -/

section Every

variable {leaf : Scalar → Prop} {t child new : Tree}

theorem Every.setChild (ht : t.Every (Node leaf fun _ => True)) {step : Step}
    (hold : t.child? step = some child) (hnew : new.Every (Node leaf fun _ => True)) :
    (t.setChild step new).Every (Node leaf fun _ => True) := by
  cases t with
  | leaf value => cases hold
  | seq items =>
    cases step with
    | field name => cases hold
    | item index =>
      obtain ⟨before, after, rfl, hset⟩ := exists_set hold
      have hitems := everyItem_iff.mp ht.2
      rw [List.forall_mem_append, List.forall_mem_cons] at hitems
      refine ⟨trivial, everyItem_iff.mpr ?_⟩
      rw [hset, List.forall_mem_append, List.forall_mem_cons]
      exact ⟨hitems.1, hnew, hitems.2.2⟩
  | keyed fields =>
    cases step with
    | field name =>
      obtain ⟨before, after, rfl, hput⟩ := exists_put hold
      have hfields := everyField_iff.mp ht.2
      rw [List.forall_mem_append, List.forall_mem_cons] at hfields
      refine ⟨trivial, everyField_iff.mpr ?_⟩
      rw [hput, List.forall_mem_append, List.forall_mem_cons]
      exact ⟨hfields.1, hnew, hfields.2.2⟩
    | item index => cases hold

theorem Every.setAt (ht : t.Every (Node leaf fun _ => True)) (p : Address)
    (hnew : new.Every (Node leaf fun _ => True)) :
    (t.setAt p new).Every (Node leaf fun _ => True) := by
  induction p generalizing t with
  | nil => exact hnew
  | cons step rest ih =>
    rw [Tree.setAt]
    split
    · next child hchild => exact ht.setChild hchild (ih (ht.child? hchild))
    · exact ht

end Every

end FluentFixtures.Tree
