import FluentFixtures.Proofs.Tree.Rebuild

/-!
# Rounds of the walk

`Edit.Rounds` runs the loop with the stack round by round and counts: a round
visits one job. From every stack the loop comes to one end, `rounds_iff`, also
where an item gives way to more elements than there were items. A round adds one
container to the result, so a walk that succeeds takes a round for each container
of the tree it makes: `rounds_eq_containers`. `rebuild_seq` says what rebuilding
makes of a sequence: its items expand, and what they expand to is rebuilt but not
expanded again.
-/

namespace FluentFixtures

namespace Edit

variable {ε : Type} {r : Edit ε}

/-- The loop, from a stack and a log, ends after some rounds with a result. -/
inductive Rounds (r : Edit ε) : Nat → List Job → List Shell → Except ε (List Shell) → Prop
  | done (log : List Shell) : Rounds r 0 [] log (.ok log)
  | fault {job : Job} {rest : List Job} {log : List Shell} {e : ε} :
      r.visit job = .error e → Rounds r 1 (job :: rest) log (.error e)
  | visit {n : Nat} {job : Job} {rest jobs : List Job} {log : List Shell} {shell : Shell}
      {result : Except ε (List Shell)} : r.visit job = .ok (shell, jobs) →
      Rounds r n (jobs.reverse ++ rest) (shell :: log) result →
      Rounds r (n + 1) (job :: rest) log result

theorem Rounds.unique {n m : Nat} {stack : List Job} {log : List Shell}
    {result result' : Except ε (List Shell)} (h : r.Rounds n stack log result)
    (h' : r.Rounds m stack log result') : m = n ∧ result' = result := by
  induction h generalizing m with
  | done log => cases h'; exact ⟨rfl, rfl⟩
  | fault hvisit =>
    cases h' with
    | fault hvisit' => rw [hvisit] at hvisit'; cases hvisit'; exact ⟨rfl, rfl⟩
    | visit hvisit' => rw [hvisit] at hvisit'; cases hvisit'
  | visit hvisit _ ih =>
    cases h' with
    | fault hvisit' => rw [hvisit] at hvisit'; cases hvisit'
    | visit hvisit' hrest =>
      rw [hvisit] at hvisit'
      cases hvisit'
      obtain ⟨rfl, hresult⟩ := ih hrest
      exact ⟨rfl, hresult⟩

/-- The loop ends, with the result of the walk. -/
theorem exists_rounds (r : Edit ε) (stack : List Job) (log : List Shell) :
    ∃ n, r.Rounds n stack log (r.walk stack log) := by
  fun_induction r.walk stack log with
  | case1 log => exact ⟨0, .done log⟩
  | case2 log job rest e hvisit => exact ⟨1, .fault hvisit⟩
  | case3 log job rest shell jobs hvisit ih =>
    obtain ⟨n, hn⟩ := ih
    exact ⟨n + 1, .visit hvisit hn⟩

theorem rounds_iff (r : Edit ε) (stack : List Job) (log : List Shell) :
    ∃ n, ∀ m result, r.Rounds m stack log result ↔ m = n ∧ result = r.walk stack log := by
  obtain ⟨n, hn⟩ := exists_rounds r stack log
  refine ⟨n, fun m result => ⟨hn.unique, ?_⟩⟩
  rintro ⟨rfl, rfl⟩
  exact hn

theorem Rounds.length {n : Nat} {stack : List Job} {log visited : List Shell}
    (h : r.Rounds n stack log (.ok visited)) : visited.length = n + log.length := by
  generalize hresult : Except.ok visited = result at h
  induction h with
  | done log => cases hresult; rw [Nat.zero_add]
  | fault hvisit => cases hresult
  | visit hvisit _ ih => rw [ih hresult, List.length_cons, Nat.add_assoc, Nat.add_comm 1]

end Edit

namespace Shell

open FluentFixtures.Tree (containersOfItems containersOfFields)

theorem containers_fill (slots : List (Option Scalar)) (stack : List Tree) :
    containersOfItems (fill slots stack).1 + containersOfItems (fill slots stack).2 =
      containersOfItems stack := by
  induction slots with
  | nil => simp [fill, containersOfItems]
  | cons slot slots ih =>
    rw [← ih, fill]
    obtain ⟨filled, left⟩ := fill slots stack
    cases slot with
    | some value => simp [containersOfItems, Tree.containers]
    | none =>
      cases left with
      | nil => rfl
      | cons t rest => simp only [containersOfItems]; omega

theorem length_fill_le (slots : List (Option Scalar)) (stack : List Tree) :
    (fill slots stack).1.length ≤ slots.length := by
  induction slots with
  | nil => exact Nat.le_refl 0
  | cons slot slots ih =>
    rw [fill, List.length_cons]
    revert ih
    obtain ⟨filled, left⟩ := fill slots stack
    intro ih
    cases slot with
    | some value => exact Nat.succ_le_succ ih
    | none =>
      cases left with
      | nil => exact Nat.le_succ_of_le ih
      | cons t rest => exact Nat.succ_le_succ ih

theorem containersOfFields_zip {names : List Text} {ts : List Tree}
    (h : ts.length ≤ names.length) :
    containersOfFields (names.zip ts) = containersOfItems ts := by
  induction names generalizing ts with
  | nil =>
    obtain rfl := List.length_eq_zero_iff.mp (Nat.le_zero.mp h)
    rfl
  | cons name names ih =>
    cases ts with
    | nil => rfl
    | cons t ts =>
      rw [List.zip_cons_cons, containersOfFields, containersOfItems, ih (Nat.le_of_succ_le_succ h)]

theorem containers_close (stack : List Tree) (shell : Shell) :
    containersOfItems (close stack shell) = containersOfItems stack + 1 := by
  cases shell with
  | keyed slots =>
    have hlength : (fill (slots.map Prod.snd) stack).1.length ≤ (slots.map Prod.fst).length := by
      have hle := length_fill_le (slots.map Prod.snd) stack
      rwa [List.length_map] at hle ⊢
    have hfill := containers_fill (slots.map Prod.snd) stack
    simp only [close, containersOfItems, Tree.containers, containersOfFields_zip hlength]
    omega
  | seq slots =>
    have hfill := containers_fill slots stack
    simp only [close, containersOfItems, Tree.containers]
    omega

theorem containers_foldl_close (log : List Shell) (base : List Tree) :
    containersOfItems (log.foldl close base) = log.length + containersOfItems base := by
  induction log generalizing base with
  | nil => rw [List.foldl_nil, List.length_nil, Nat.zero_add]
  | cons shell rest ih =>
    rw [List.foldl_cons, ih, containers_close, List.length_cons]
    omega

end Shell

namespace Edit

variable {ε : Type} {r : Edit ε}

/-- A loop whose jobs stand for trees takes a round for each container of these. -/
theorem Rounds.containers {n : Nat} {stack : List Job} {result : Except ε (List Shell)}
    (h : r.Rounds n stack [] result) {trees : List Tree}
    (hstack : stack.mapM r.rebuildJob = .ok trees) : n = Tree.containersOfItems trees := by
  obtain ⟨m, hm⟩ := exists_rounds r stack []
  obtain ⟨rfl, rfl⟩ := hm.unique h
  have hwalk := r.walk_eq stack []
  rw [hstack] at hwalk
  obtain ⟨visited, hok, hfold⟩ := hwalk
  rw [hok, List.append_nil] at h
  have hcount := Shell.containers_foldl_close visited []
  rw [hfold, List.append_nil, h.length] at hcount
  exact hcount.symm

/-- A walk that succeeds takes a round for each container of the result, and none for a leaf. -/
theorem rounds_eq_containers {n : Nat} {t u : Tree} {result : Except ε (List Shell)}
    (h : r.Rounds n (t.job? .root).toList [] result) (hedit : t.edit r = .ok u) :
    n = u.containers := by
  have hjob (job : Job) (hjob : t.job? .root = some job) (hu : r.rebuildJob job = .ok u) :
      n = u.containers := by
    rw [hjob] at h
    have htrees : [job].mapM r.rebuildJob = .ok [u] := by
      rw [List.mapM_cons, hu]
      rfl
    exact h.containers htrees
  rw [Tree.edit_eq_rebuild] at hedit
  cases t with
  | leaf value => cases hedit; exact h.containers rfl
  | seq items => exact hjob (.items items .root) rfl hedit
  | keyed fields => exact hjob (.fields fields .root) rfl hedit

/-! ## Sequences -/

variable (r)

/-- What an item gives way to: itself, or a text element for each line. -/
def expand (t : Tree) : Except ε (List Tree) :=
  (r.item t).map fun
    | none => [t]
    | some lines => lines.map Tree.textElement

/-- What all items give way to, in their order. -/
def expandAll (items : List Tree) : Except ε (List Tree) :=
  (items.mapM r.expand).map List.flatten

/-- What the edit makes of children of a sequence that stand there from `index` on. -/
def rebuildEach (index : Nat) : List Tree → Except ε (List Tree)
  | [] => .ok []
  | t :: rest => putFirst (rebuildEach (index + 1) rest) (r.rebuild (.index index) t)

theorem expandAll_cons (t : Tree) (rest : List Tree) :
    r.expandAll (t :: rest) =
      (r.expand t).bind fun first => (r.expandAll rest).map (first ++ ·) := by
  rw [expandAll, List.mapM_cons, expandAll]
  cases r.expand t with
  | error e => rfl
  | ok first => cases rest.mapM r.expand <;> rfl

/-- A new text element is rebuilt like a tree that was there. -/
theorem rebuild_textElement (key : ParentKey) (line : Text) :
    r.rebuild key (Tree.textElement line) = .ok (r.lineElement key line) := by
  simp [Tree.textElement, rebuild, rebuildFields, lineElement, lineFields, LeafEdit.keepAll,
    Except.map]

theorem rebuildEach_lines (index : Nat) (lines : List Text) (rest : List Tree) :
    r.rebuildEach index (lines.map Tree.textElement ++ rest) =
      (r.rebuildEach (index + lines.length) rest).map (r.lineElements index lines ++ ·) := by
  induction lines generalizing index with
  | nil =>
    cases hrest : r.rebuildEach index rest <;> simp [lineElements, Except.map, hrest]
  | cons line more ih =>
    rw [List.map_cons, List.cons_append, rebuildEach, ih, rebuild_textElement, List.length_cons,
      Nat.add_assoc index 1, Nat.add_comm 1]
    cases r.rebuildEach (index + (more.length + 1)) rest <;> rfl

/-- Rebuilding items is rebuilding what they give way to, unless one of them has a fault. -/
theorem expandAll_rebuildEach (index : Nat) (items : List Tree) :
    match r.itemFault? items with
    | some e => r.expandAll items = .error e
    | none => ∃ children, r.expandAll items = .ok children ∧
        r.rebuildItems index items = r.rebuildEach index children := by
  induction items generalizing index with
  | nil => exact ⟨[], rfl, rfl⟩
  | cons t rest ih =>
    rw [expandAll_cons, itemFault?, rebuildItems, expand]
    cases hitem : r.item t with
    | error e => rfl
    | ok lines? =>
      cases lines? with
      | some lines =>
        have hrest := ih (index + lines.length)
        cases hfault : r.itemFault? rest with
        | some e => rw [hfault] at hrest; simp only [hrest]; rfl
        | none =>
          rw [hfault] at hrest
          obtain ⟨children, hexpand, hrebuild⟩ := hrest
          refine ⟨lines.map Tree.textElement ++ children, by rw [hexpand]; rfl, ?_⟩
          rw [rebuildEach_lines, ← hrebuild]
      | none =>
        have hrest := ih (index + 1)
        cases hfault : r.itemFault? rest with
        | some e => rw [hfault] at hrest; simp only [hrest]; rfl
        | none =>
          rw [hfault] at hrest
          obtain ⟨children, hexpand, hrebuild⟩ := hrest
          refine ⟨t :: children, by rw [hexpand]; rfl, ?_⟩
          rw [rebuildEach, ← hrebuild]

/-- A sequence becomes what its items give way to, with each container in it rebuilt. -/
theorem rebuild_seq (key : ParentKey) (items : List Tree) :
    r.rebuild key (.seq items) =
      (r.expandAll items).bind fun children => (r.rebuildEach 0 children).map .seq := by
  have hitems := r.expandAll_rebuildEach 0 items
  rw [rebuild]
  cases hfault : r.itemFault? items with
  | some e => rw [hfault] at hitems; rw [hitems]; rfl
  | none =>
    rw [hfault] at hitems
    obtain ⟨children, hexpand, hrebuild⟩ := hitems
    rw [hexpand, hrebuild]
    rfl

end Edit

end FluentFixtures
