import FluentFixtures.Passes
import FluentFixtures.Proofs.Text.Lines
import FluentFixtures.Proofs.Tree.Rewrite

/-!
# Splitting lines

`Tree.split` is the pass over text elements as a recursion. Whether an item is
split, kept or refused depends on its type and on its content alone, and neither
changes when the item itself is split or has other fields rewritten. Two splits
in a row are one split, `split_split`, and splitting commutes with a rewriting of
leaf fields that it cannot see in any item, `split_rewrite`.
-/

namespace FluentFixtures

namespace Tree

/-- The fault of the first item that cannot be split. -/
def splitFault? (keepBlank : Bool) : List Tree → Option SplitError :=
  (splitEdit keepBlank).itemFault?

mutual

/-- The tree with a text element for each line of a text element in a sequence. -/
def split (keepBlank : Bool) : Tree → Except SplitError Tree
  | .leaf value => .ok (.leaf value)
  | .seq items =>
    match splitFault? keepBlank items with
    | some e => .error e
    | none => (splitItems keepBlank items).map .seq
  | .keyed fields => (splitFields keepBlank fields).map .keyed

def splitItems (keepBlank : Bool) : List Tree → Except SplitError (List Tree)
  | [] => .ok []
  | t :: rest =>
    match itemLines? keepBlank t with
    | .error e => .error e
    | .ok (some lines) => (splitItems keepBlank rest).map (lines.map textElement ++ ·)
    | .ok none => Edit.putFirst (splitItems keepBlank rest) (split keepBlank t)

def splitFields (keepBlank : Bool) : List (Text × Tree) → Except SplitError (List (Text × Tree))
  | [] => .ok []
  | (name, t) :: rest =>
    match splitFields keepBlank rest with
    | .error e => .error e
    | .ok rest => (split keepBlank t).map fun t => (name, t) :: rest

end

theorem lineElements_splitEdit (keepBlank : Bool) (index : Nat) (lines : List Text) :
    (splitEdit keepBlank).lineElements index lines = lines.map textElement := by
  induction lines generalizing index with
  | nil => rfl
  | cons line rest ih => rw [Edit.lineElements, ih]; rfl

theorem keep_some (key : ParentKey) (name : Text) (t : Tree) :
    LeafEdit.keep (fun _ value _ => some value) key name t = [(name, t)] := by
  cases t <;> rfl

mutual

theorem rebuild_splitEdit (keepBlank : Bool) (key : ParentKey) :
    ∀ t, (splitEdit keepBlank).rebuild key t = t.split keepBlank
  | .leaf _ => rfl
  | .seq items => by
    rw [Edit.rebuild, split, rebuildItems_splitEdit, splitFault?]
    cases (splitEdit keepBlank).itemFault? items <;> rfl
  | .keyed fields => by
    rw [Edit.rebuild, split, rebuildFields_splitEdit]

theorem rebuildItems_splitEdit (keepBlank : Bool) (index : Nat) :
    ∀ ts, (splitEdit keepBlank).rebuildItems index ts = splitItems keepBlank ts
  | [] => rfl
  | t :: rest => by
    have hitem : (splitEdit keepBlank).item t = itemLines? keepBlank t := rfl
    rw [Edit.rebuildItems, splitItems, rebuild_splitEdit, hitem]
    cases itemLines? keepBlank t with
    | error e => rfl
    | ok lines? =>
      cases lines? with
      | some lines => simp only [rebuildItems_splitEdit, lineElements_splitEdit]
      | none => simp only [rebuildItems_splitEdit]

theorem rebuildFields_splitEdit (keepBlank : Bool) (key : ParentKey) :
    ∀ fields, (splitEdit keepBlank).rebuildFields key fields = splitFields keepBlank fields
  | [] => rfl
  | (name, t) :: rest => by
    rw [Edit.rebuildFields, splitFields, rebuildFields_splitEdit, rebuild_splitEdit]
    cases splitFields keepBlank rest with
    | error e => rfl
    | ok rest => simp only [splitEdit, keep_some, List.singleton_append]

end

theorem splitLines_eq_split (keepBlank : Bool) (t : Tree) :
    t.splitLines keepBlank = t.split keepBlank := by
  rw [splitLines, edit_eq_rebuild, rebuild_splitEdit]

theorem split_seq {keepBlank : Bool} {items : List Tree} {u : Tree}
    (h : (seq items).split keepBlank = .ok u) :
    splitFault? keepBlank items = none ∧
      ∃ items', splitItems keepBlank items = .ok items' ∧ u = .seq items' := by
  rw [split] at h
  cases hfault : splitFault? keepBlank items with
  | some e => rw [hfault] at h; cases h
  | none =>
    cases hitems : splitItems keepBlank items with
    | error e => simp only [hfault, hitems] at h; cases h
    | ok items' => simp only [hfault, hitems] at h; cases h; exact ⟨rfl, items', rfl, rfl⟩

theorem split_keyed {keepBlank : Bool} {fields : Fields} {u : Tree}
    (h : (keyed fields).split keepBlank = .ok u) :
    ∃ fields', splitFields keepBlank fields = .ok fields' ∧ u = .keyed fields' := by
  rw [split] at h
  cases hfields : splitFields keepBlank fields with
  | error e => rw [hfields] at h; cases h
  | ok fields' => rw [hfields] at h; cases h; exact ⟨fields', rfl, rfl⟩

theorem kind_split {keepBlank : Bool} {t u : Tree} (h : t.split keepBlank = .ok u) :
    u.kind = t.kind := by
  cases t with
  | leaf value => cases h; rfl
  | seq items => obtain ⟨-, items', -, rfl⟩ := split_seq h; rfl
  | keyed fields => obtain ⟨fields', -, rfl⟩ := split_keyed h; rfl

/-! ## What splitting looks at -/

theorem contentLines?_cases (t : Tree) :
    (∃ e, ∀ keepBlank, contentLines? keepBlank t = .error e) ∨
      (∀ keepBlank, contentLines? keepBlank t = .ok none) ∨
      ∃ content : Text,
        ∀ keepBlank, contentLines? keepBlank t = .ok (some (content.lines keepBlank)) := by
  cases t with
  | leaf value =>
    cases value with
    | str content =>
      by_cases hfeed : content.contains Newline.lineFeed
      · exact .inr (.inr ⟨content, fun _ => by rw [contentLines?, if_pos hfeed]⟩)
      · exact .inr (.inl fun _ => by rw [contentLines?, if_neg hfeed])
    | null => exact .inl ⟨_, fun _ => rfl⟩
    | bool b => exact .inl ⟨_, fun _ => rfl⟩
    | int n => exact .inl ⟨_, fun _ => rfl⟩
    | double d => exact .inl ⟨_, fun _ => rfl⟩
  | seq items =>
    by_cases hfeed : items.any (isString lineFeedText)
    · exact .inl ⟨_, fun _ => by rw [contentLines?, if_pos hfeed]⟩
    · exact .inr (.inl fun _ => by rw [contentLines?, if_neg hfeed])
  | keyed fields =>
    by_cases hfeed : fields.any fun field => field.1 = lineFeedText
    · exact .inl ⟨_, fun _ => by rw [contentLines?, if_pos hfeed]⟩
    · exact .inr (.inl fun _ => by rw [contentLines?, if_neg hfeed])

/-- An item is refused, kept, or gives way to the lines of its content; the flag decides no more
than which of them stay. -/
theorem itemLines?_cases (t : Tree) :
    (∃ e, ∀ keepBlank, itemLines? keepBlank t = .error e) ∨
      (∀ keepBlank, itemLines? keepBlank t = .ok none) ∨
      ∃ content : Text, t.isTextElement ∧
        ∀ keepBlank, itemLines? keepBlank t = .ok (some (content.lines keepBlank)) := by
  cases t with
  | leaf value => exact .inr (.inl fun _ => rfl)
  | seq items => exact .inr (.inl fun _ => rfl)
  | keyed fields =>
    by_cases htext : (keyed fields).isTextElement
    · cases hvalue : Fields.get? fields valueField with
      | none => exact .inl ⟨_, fun _ => by rw [itemLines?, if_pos htext, hvalue]⟩
      | some content =>
        have hitem (keepBlank : Bool) :
            itemLines? keepBlank (keyed fields) = contentLines? keepBlank content := by
          rw [itemLines?, if_pos htext, hvalue]
        simp only [hitem]
        rcases contentLines?_cases content with herror | hnone | ⟨lines, hlines⟩
        · exact .inl herror
        · exact .inr (.inl hnone)
        · exact .inr (.inr ⟨lines, htext, hlines⟩)
    · exact .inr (.inl fun _ => by rw [itemLines?, if_neg htext])

theorem itemLines?_eq_none {a : Bool} {t : Tree} (h : itemLines? a t = .ok none) (b : Bool) :
    itemLines? b t = .ok none := by
  rcases itemLines?_cases t with ⟨e, he⟩ | hnone | ⟨content, -, hlines⟩
  · rw [he] at h; cases h
  · exact hnone b
  · rw [hlines] at h; cases h

theorem splitFault?_flag (a b : Bool) (items : List Tree) :
    splitFault? a items = splitFault? b items := by
  induction items with
  | nil => rfl
  | cons t rest ih =>
    simp only [splitFault?, splitEdit, Edit.itemFault?] at ih ⊢
    rcases itemLines?_cases t with ⟨e, he⟩ | hnone | ⟨content, -, hlines⟩
    · simp only [he]
    · simp only [hnone, ih]
    · simp only [hlines, ih]

/-- Trees that splitting cannot tell apart as items. -/
theorem itemLines?_congr {keepBlank : Bool} {fields fields' : Fields}
    (htype : (keyed fields).isTextElement = (keyed fields').isTextElement)
    (hvalue : (Fields.get? fields valueField).map (contentLines? keepBlank) =
      (Fields.get? fields' valueField).map (contentLines? keepBlank)) :
    itemLines? keepBlank (keyed fields) = itemLines? keepBlank (keyed fields') := by
  simp only [itemLines?, htype]
  cases hget : Fields.get? fields valueField with
  | none =>
    cases hget' : Fields.get? fields' valueField with
    | none => rfl
    | some content => rw [hget, hget'] at hvalue; cases hvalue
  | some content =>
    cases hget' : Fields.get? fields' valueField with
    | none => rw [hget, hget'] at hvalue; cases hvalue
    | some content' =>
      rw [hget, hget'] at hvalue
      simp only [Option.map_some, Option.some.injEq] at hvalue
      simp only [hvalue]

/-! ## Items after a rewriting -/

theorem isString_rewrite (text : Text) (f : LeafEdit) (key : ParentKey) (t : Tree) :
    isString text (t.rewrite f key) = isString text t := by
  cases t <;> rfl

theorem any_isString_rewriteItems (text : Text) (f : LeafEdit) (index : Nat) (ts : List Tree) :
    (rewriteItems f index ts).any (isString text) = ts.any (isString text) := by
  induction ts generalizing index with
  | nil => rfl
  | cons t rest ih => rw [rewriteItems, List.any_cons, List.any_cons, isString_rewrite, ih]

theorem any_name_rewriteFields {f : LeafEdit} {key : ParentKey} {name : Text}
    (hf : ∀ value, (f name value key).isSome) (fields : Fields) :
    (rewriteFields f key fields).any (fun field => field.1 = name) =
      fields.any (fun field => field.1 = name) := by
  induction fields with
  | nil => rfl
  | cons field rest ih =>
    obtain ⟨name', t⟩ := field
    rw [rewriteFields, List.any_append, ih, List.any_cons]
    congr 1
    rcases keep_eq_nil_or f key name' (rewrite f (.field name') t) with hkeep | ⟨t', hkeep⟩
    · rw [hkeep]
      have hname : name' ≠ name := by
        rintro rfl
        cases t with
        | leaf value =>
          obtain ⟨value', hvalue⟩ := Option.isSome_iff_exists.mp (hf value)
          simp [rewrite, LeafEdit.keep, hvalue] at hkeep
        | seq items => cases hkeep
        | keyed fields => cases hkeep
      simp [hname]
    · simp [hkeep]

theorem contentLines?_rewrite {f : LeafEdit} {key : ParentKey}
    (hf : ∀ value, (f lineFeedText value key).isSome) (keepBlank : Bool) (t : Tree) :
    contentLines? keepBlank (t.rewrite f key) = contentLines? keepBlank t := by
  cases t with
  | leaf value => rfl
  | seq items => rw [rewrite, contentLines?, contentLines?, any_isString_rewriteItems]
  | keyed fields => rw [rewrite, contentLines?, contentLines?, any_name_rewriteFields hf]

end Tree

namespace LeafEdit

/-- A leaf edit that leaves contents alone: it does not change a content, and no field that a line
feed names goes. -/
structure SparesContent (f : LeafEdit) : Prop where
  content : ∀ key value, f valueField value key = some value
  lineFeed : ∀ key value, (f Tree.lineFeedText value key).isSome

end LeafEdit

namespace Tree

theorem itemLines?_rewrite {f : LeafEdit} (hf : f.SparesContent) {key : ParentKey} {t : Tree}
    (htype : (t.rewrite f key).isTextElement = t.isTextElement) (keepBlank : Bool) :
    itemLines? keepBlank (t.rewrite f key) = itemLines? keepBlank t := by
  cases t with
  | leaf value => rfl
  | seq items => rfl
  | keyed fields =>
    refine itemLines?_congr htype ?_
    rw [get?_rewriteFields (hf.content key), Option.map_map]
    congr 1
    funext content
    exact contentLines?_rewrite (hf.lineFeed _) keepBlank content

/-- Whether splitting sees no difference between an item and the rewritten item, and the rewriting
none between an element of a line and what it makes of it. -/
structure SplitsAlike (f : LeafEdit) (t : Tree) : Prop where
  item : ∀ keepBlank, itemLines? keepBlank (t.rewrite f (.index 0)) = itemLines? keepBlank t
  line : t.isTextElement → ∀ line, (textElement line).rewrite f (.index 0) = textElement line

/-- Whether all items are split alike before and after a rewriting. -/
def AllSplitAlike (f : LeafEdit) (items : List Tree) : Prop := ∀ t ∈ items, SplitsAlike f t

theorem splitFault?_map {f : LeafEdit} (keepBlank : Bool) {items : List Tree}
    (h : AllSplitAlike f items) :
    splitFault? keepBlank (items.map (rewrite f (.index 0))) = splitFault? keepBlank items := by
  induction items with
  | nil => rfl
  | cons t rest ih =>
    have hitem := (h t List.mem_cons_self).item keepBlank
    have hrest := ih fun u hu => h u (List.mem_cons_of_mem _ hu)
    simp only [splitFault?, splitEdit, List.map_cons, Edit.itemFault?] at hrest ⊢
    rw [hitem, hrest]

mutual

/-- Splitting commutes with a rewriting that treats all items of a sequence alike and that it
cannot see in any item. -/
theorem split_rewrite {f : LeafEdit} (hf : f.IndexFree) (keepBlank : Bool) (key : ParentKey) :
    ∀ {t : Tree}, t.Every (Items (AllSplitAlike f)) →
      (t.rewrite f key).split keepBlank = (t.split keepBlank).map (rewrite f key)
  | .leaf _, _ => rfl
  | .seq items, h => by
    rw [rewrite, split, split, rewriteItems_eq_map hf, splitFault?_map keepBlank h.1,
      splitItems_rewrite hf keepBlank h.2 h.1]
    cases splitFault? keepBlank items with
    | some e => rfl
    | none =>
      cases splitItems keepBlank items with
      | error e => rfl
      | ok items' => simp [Except.map, rewrite, rewriteItems_eq_map hf]
  | .keyed fields, h => by
    rw [rewrite, split, split, splitFields_rewrite hf keepBlank key h.2]
    cases splitFields keepBlank fields <;> rfl

theorem splitItems_rewrite {f : LeafEdit} (hf : f.IndexFree) (keepBlank : Bool) :
    ∀ {ts : List Tree}, EveryItem (Items (AllSplitAlike f)) ts → AllSplitAlike f ts →
      splitItems keepBlank (ts.map (rewrite f (.index 0))) =
        (splitItems keepBlank ts).map (·.map (rewrite f (.index 0)))
  | [], _, _ => rfl
  | t :: rest, h, halike => by
    have hrest := splitItems_rewrite hf keepBlank h.2
      fun u hu => halike u (List.mem_cons_of_mem _ hu)
    have ht := split_rewrite hf keepBlank (.index 0) h.1
    obtain ⟨hitem, hline⟩ := halike t List.mem_cons_self
    rw [List.map_cons, splitItems, splitItems, hitem, hrest, ht]
    rcases itemLines?_cases t with ⟨e, he⟩ | hnone | ⟨content, htext, hlines⟩
    · rw [he]
      rfl
    · rw [hnone]
      cases splitItems keepBlank rest with
      | error e => rfl
      | ok rest' => cases t.split keepBlank <;> rfl
    · rw [hlines]
      cases splitItems keepBlank rest with
      | error e => rfl
      | ok rest' =>
        simp only [Except.map, List.map_append, List.map_map]
        congr 2
        exact List.map_congr_left fun line _ => (hline htext line).symm

theorem splitFields_rewrite {f : LeafEdit} (hf : f.IndexFree) (keepBlank : Bool)
    (key : ParentKey) :
    ∀ {fields : List (Text × Tree)}, EveryField (Items (AllSplitAlike f)) fields →
      splitFields keepBlank (rewriteFields f key fields) =
        (splitFields keepBlank fields).map (rewriteFields f key)
  | [], _ => rfl
  | (name, t) :: rest, h => by
    have hrest := splitFields_rewrite hf keepBlank key h.2
    have ht := split_rewrite hf keepBlank (.field name) h.1
    rw [rewriteFields, splitFields]
    by_cases hleaf : t.kind = .leaf
    · cases t with
      | leaf value =>
        rw [rewrite, LeafEdit.keep, split]
        cases hvalue : f name value key with
        | none =>
          simp only [List.nil_append, hrest]
          cases splitFields keepBlank rest with
          | error e => rfl
          | ok rest' => simp [Except.map, rewriteFields, rewrite, LeafEdit.keep, hvalue]
        | some value' =>
          simp only [List.singleton_append, splitFields, hrest]
          cases splitFields keepBlank rest with
          | error e => rfl
          | ok rest' => simp [Except.map, split, rewriteFields, rewrite, LeafEdit.keep, hvalue]
      | seq items => cases hleaf
      | keyed fields => cases hleaf
    · rw [keep_container f key name (by rwa [kind_rewrite]), List.singleton_append, splitFields,
        hrest, ht]
      cases splitFields keepBlank rest with
      | error e => rfl
      | ok rest' =>
        cases hsplit : t.split keepBlank with
        | error e => rfl
        | ok t' =>
          have hkind : (t'.rewrite f (.field name)).kind ≠ .leaf := by
            rwa [kind_rewrite, kind_split hsplit]
          simp only [Except.map, rewriteFields, keep_container f key name hkind,
            List.singleton_append]

end

/-! ## Items after a split -/

theorem isString_of_kind {t : Tree} (h : t.kind ≠ .leaf) (text : Text) :
    isString text t = false := by
  cases t with
  | leaf value => exact absurd rfl h
  | seq items => rfl
  | keyed fields => rfl

theorem isString_split {keepBlank : Bool} {t u : Tree} (h : t.split keepBlank = .ok u)
    (text : Text) : isString text u = isString text t := by
  by_cases hleaf : t.kind = .leaf
  · cases t with
    | leaf value => cases h; rfl
    | seq items => cases hleaf
    | keyed fields => cases hleaf
  · have hkind : u.kind ≠ .leaf := by rwa [kind_split h]
    rw [isString_of_kind hleaf, isString_of_kind hkind]

theorem splitItems_cons {keepBlank : Bool} {t : Tree} {rest us : List Tree}
    (h : splitItems keepBlank (t :: rest) = .ok us) :
    ∃ rest', splitItems keepBlank rest = .ok rest' ∧
      ((∃ lines, itemLines? keepBlank t = .ok (some lines) ∧
          us = lines.map textElement ++ rest') ∨
        ∃ u, itemLines? keepBlank t = .ok none ∧ t.split keepBlank = .ok u ∧ us = u :: rest') := by
  rw [splitItems] at h
  cases hitem : itemLines? keepBlank t with
  | error e => rw [hitem] at h; cases h
  | ok lines? =>
    cases hrest : splitItems keepBlank rest with
    | error e => rw [hitem, hrest] at h; cases lines? <;> cases h
    | ok rest' =>
      refine ⟨rest', rfl, ?_⟩
      rw [hitem, hrest] at h
      cases lines? with
      | some lines => cases h; exact .inl ⟨lines, rfl, rfl⟩
      | none =>
        cases ht : t.split keepBlank with
        | error e => simp only [Edit.putFirst, ht] at h; cases h
        | ok u =>
          simp only [Edit.putFirst, ht] at h
          cases h
          exact .inr ⟨u, rfl, rfl, rfl⟩

theorem splitFields_cons {keepBlank : Bool} {name : Text} {t : Tree} {rest fields' : Fields}
    (h : splitFields keepBlank ((name, t) :: rest) = .ok fields') :
    ∃ u rest', splitFields keepBlank rest = .ok rest' ∧ t.split keepBlank = .ok u ∧
      fields' = (name, u) :: rest' := by
  rw [splitFields] at h
  cases hrest : splitFields keepBlank rest with
  | error e => rw [hrest] at h; cases h
  | ok rest' =>
    cases ht : t.split keepBlank with
    | error e => simp only [hrest, ht] at h; cases h
    | ok u =>
      simp only [hrest, ht] at h
      cases h
      exact ⟨u, rest', rfl, rfl, rfl⟩

theorem any_isString_splitItems {keepBlank : Bool} (text : Text) {ts us : List Tree}
    (h : splitItems keepBlank ts = .ok us) :
    us.any (isString text) = ts.any (isString text) := by
  induction ts generalizing us with
  | nil => cases h; rfl
  | cons t rest ih =>
    obtain ⟨rest', hrest, ⟨lines, hitem, rfl⟩ | ⟨u, -, ht, rfl⟩⟩ := splitItems_cons h
    · have hkind : t.kind ≠ .leaf := by
        rintro hleaf
        cases t with
        | leaf value => cases hitem
        | seq items => cases hleaf
        | keyed fields => cases hleaf
      have helements : (lines.map textElement).any (isString text) = false := by
        simp [textElement, isString]
      rw [List.any_append, helements, List.any_cons, isString_of_kind hkind, ih hrest]
    · rw [List.any_cons, List.any_cons, isString_split ht, ih hrest]

theorem splitFields_names {keepBlank : Bool} {fields fields' : Fields}
    (h : splitFields keepBlank fields = .ok fields') :
    fields'.map Prod.fst = fields.map Prod.fst := by
  induction fields generalizing fields' with
  | nil => cases h; rfl
  | cons field rest ih =>
    obtain ⟨name, t⟩ := field
    obtain ⟨u, rest', hrest, -, rfl⟩ := splitFields_cons h
    simp [ih hrest]

theorem get?_splitFields {keepBlank : Bool} {fields fields' : Fields}
    (h : splitFields keepBlank fields = .ok fields') (name : Text) :
    (Fields.get? fields name = none ∧ Fields.get? fields' name = none) ∨
      ∃ t u, Fields.get? fields name = some t ∧ Fields.get? fields' name = some u ∧
        t.split keepBlank = .ok u := by
  induction fields generalizing fields' with
  | nil => cases h; exact .inl ⟨rfl, rfl⟩
  | cons field rest ih =>
    obtain ⟨name', t⟩ := field
    obtain ⟨u, rest', hrest, ht, rfl⟩ := splitFields_cons h
    simp only [get?_cons]
    by_cases hname : name' = name
    · simp only [if_pos hname]
      exact .inr ⟨t, u, rfl, rfl, ht⟩
    · simp only [if_neg hname]
      exact ih hrest

theorem contentLines?_split {a : Bool} {t u : Tree} (h : t.split a = .ok u) (keepBlank : Bool) :
    contentLines? keepBlank u = contentLines? keepBlank t := by
  cases t with
  | leaf value => cases h; rfl
  | seq items =>
    obtain ⟨-, items', hitems, rfl⟩ := split_seq h
    rw [contentLines?, contentLines?, any_isString_splitItems _ hitems]
  | keyed fields =>
    obtain ⟨fields', hfields, rfl⟩ := split_keyed h
    have hany (fields : Fields) : fields.any (fun field => field.1 = lineFeedText) =
        (fields.map Prod.fst).any (· = lineFeedText) := by
      rw [List.any_map]; rfl
    rw [contentLines?, contentLines?, hany, splitFields_names hfields, ← hany]

theorem type?_split {a : Bool} {t u : Tree} (h : t.split a = .ok u) : u.type? = t.type? := by
  cases t with
  | leaf value => cases h; rfl
  | seq items => obtain ⟨-, items', -, rfl⟩ := split_seq h; rfl
  | keyed fields =>
    obtain ⟨fields', hfields, rfl⟩ := split_keyed h
    simp only [type?]
    rcases get?_splitFields hfields typeField with ⟨hnone, hnone'⟩ | ⟨t, u, ht, hu, hsplit⟩
    · rw [hnone, hnone']
    · rw [ht, hu]
      cases t with
      | leaf value => cases hsplit; rfl
      | seq items => obtain ⟨-, items', -, rfl⟩ := split_seq hsplit; rfl
      | keyed fields => obtain ⟨fields', -, rfl⟩ := split_keyed hsplit; rfl

/-- An item that was split is split again as it was before. -/
theorem itemLines?_split {a : Bool} {t u : Tree} (h : t.split a = .ok u) (keepBlank : Bool) :
    itemLines? keepBlank u = itemLines? keepBlank t := by
  have htype : u.isTextElement = t.isTextElement := by
    rw [isTextElement, isTextElement, type?_split h]
  cases t with
  | leaf value => cases h; rfl
  | seq items => obtain ⟨-, items', -, rfl⟩ := split_seq h; rfl
  | keyed fields =>
    obtain ⟨fields', hfields, rfl⟩ := split_keyed h
    refine itemLines?_congr htype ?_
    rcases get?_splitFields hfields valueField with ⟨hnone, hnone'⟩ | ⟨t, u, ht, hu, hsplit⟩
    · rw [hnone, hnone']
    · rw [ht, hu, Option.map_some, Option.map_some, contentLines?_split hsplit]

/-! ## Two splits -/

theorem itemLines?_textElement (keepBlank : Bool) (line : Text) :
    itemLines? keepBlank (textElement line) =
      .ok (if line.contains Newline.lineFeed then some (line.lines keepBlank) else none) := rfl

theorem splitItems_textElements {b : Bool} (lines : List Text) (rest : List Tree) :
    splitItems b (lines.map textElement ++ rest) =
      (splitItems b rest).map ((lines.flatMap (Text.cutAgain b)).map textElement ++ ·) := by
  induction lines with
  | nil => cases h : splitItems b rest <;> simp [Except.map, h]
  | cons line more ih =>
    rw [List.map_cons, List.cons_append, splitItems, itemLines?_textElement, ih,
      List.flatMap_cons, Text.cutAgain]
    by_cases hfeed : line.contains Newline.lineFeed
    · simp only [if_pos hfeed]
      cases splitItems b rest <;> simp [Except.map]
    · simp only [if_neg hfeed]
      cases splitItems b rest with
      | error e => rfl
      | ok rest' => simp [Except.map, Edit.putFirst, split, splitFields, textElement]

theorem splitFault?_textElements (b : Bool) (lines : List Text) (rest : List Tree) :
    splitFault? b (lines.map textElement ++ rest) = splitFault? b rest := by
  induction lines with
  | nil => rfl
  | cons line more ih => exact ih

/-- The items of a split sequence can be split again. -/
theorem splitFault?_splitItems {a : Bool} (b : Bool) {ts us : List Tree}
    (h : splitItems a ts = .ok us) : splitFault? b us = none := by
  induction ts generalizing us with
  | nil => cases h; rfl
  | cons t rest ih =>
    obtain ⟨rest', hrest, ⟨lines, -, rfl⟩ | ⟨u, hitem, ht, rfl⟩⟩ := splitItems_cons h
    · rw [splitFault?_textElements, ih hrest]
    · have hagain : itemLines? b u = .ok none := by
        rw [itemLines?_split ht, itemLines?_eq_none hitem]
      have hfault := ih hrest
      simp only [splitFault?, splitEdit, Edit.itemFault?, hagain] at hfault ⊢
      exact hfault

mutual

/-- Two splits are one, in which blank lines stay if both keep them. -/
theorem split_split {a b : Bool} :
    ∀ {t u : Tree}, t.split a = .ok u → u.split b = t.split (a && b)
  | .leaf _, _, h => by cases h; rfl
  | .seq items, _, h => by
    obtain ⟨hfault, items', hitems, rfl⟩ := split_seq h
    rw [split, split, splitFault?_splitItems b hitems, splitItems_splitItems hitems,
      splitFault?_flag (a && b) a, hfault]
  | .keyed fields, _, h => by
    obtain ⟨fields', hfields, rfl⟩ := split_keyed h
    rw [split, split, splitFields_splitFields hfields]

theorem splitItems_splitItems {a b : Bool} :
    ∀ {ts us : List Tree}, splitItems a ts = .ok us →
      splitItems b us = splitItems (a && b) ts
  | [], _, h => by cases h; rfl
  | t :: rest, _, h => by
    obtain ⟨rest', hrest, ⟨lines, hitem, rfl⟩ | ⟨u, hitem, ht, rfl⟩⟩ := splitItems_cons h
    · rcases itemLines?_cases t with ⟨e, he⟩ | hnone | ⟨content, -, hlines⟩
      · rw [he] at hitem; cases hitem
      · rw [hnone] at hitem; cases hitem
      · rw [hlines] at hitem
        cases hitem
        rw [splitItems_textElements, splitItems_splitItems hrest, splitItems, hlines,
          Text.lines_flatMap_cutAgain]
    · rw [splitItems, splitItems, itemLines?_split ht, itemLines?_eq_none hitem,
        itemLines?_eq_none hitem, splitItems_splitItems hrest, split_split ht]

theorem splitFields_splitFields {a b : Bool} :
    ∀ {fields fields' : List (Text × Tree)}, splitFields a fields = .ok fields' →
      splitFields b fields' = splitFields (a && b) fields
  | [], _, h => by cases h; rfl
  | (name, t) :: rest, _, h => by
    obtain ⟨u, rest', hrest, ht, rfl⟩ := splitFields_cons h
    rw [splitFields, splitFields, splitFields_splitFields hrest, split_split ht]

end

end Tree

end FluentFixtures
