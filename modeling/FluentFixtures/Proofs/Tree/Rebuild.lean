import FluentFixtures.Tree.Edit
import Mathlib.Tactic.Common

/-!
# Editing a tree by recursion

`Edit.rebuild` says by recursion on a tree what an edit makes of it. All items of
a sequence are looked at before anything inside them, and of the containers
inside a container the last comes first; this order decides which fault is met.
`Tree.edit_eq_rebuild` says that the walk with a stack does the same: the jobs on
the stack stand for the trees that `rebuildJob` makes of them, and the shells of
the log close around those trees.
-/

namespace FluentFixtures

/-- What becomes of a leaf field of a node that was reached under a key. -/
abbrev LeafEdit := Text → Scalar → ParentKey → Option Scalar

/-- What stays of a field: a leaf is changed or dropped. -/
def LeafEdit.keep (f : LeafEdit) (key : ParentKey) (name : Text) : Tree → Fields
  | .leaf value =>
    match f name value key with
    | some value => [(name, .leaf value)]
    | none => []
  | .seq items => [(name, .seq items)]
  | .keyed fields => [(name, .keyed fields)]

/-- What stays of the fields of a node that has no containers in it. -/
def LeafEdit.keepAll (f : LeafEdit) (key : ParentKey) (fields : Fields) : Fields :=
  fields.flatMap fun field => f.keep key field.1 field.2

namespace Edit

variable {ε : Type} (r : Edit ε)

/-- The element of a line. -/
def lineElement (key : ParentKey) (content : Text) : Tree :=
  .keyed (LeafEdit.keepAll r.field key (lineFields content))

/-- The elements of lines that stand in a sequence from `index` on. -/
def lineElements (index : Nat) : List Text → List Tree
  | [] => []
  | line :: rest => r.lineElement (.index index) line :: lineElements (index + 1) rest

/-- The fault of the first item that has one. -/
def itemFault? : List Tree → Option ε
  | [] => none
  | t :: rest =>
    match r.item t with
    | .error e => some e
    | .ok _ => itemFault? rest

/-- Puts a tree before those after it, whose fault is met first. -/
def putFirst (rest : Except ε (List Tree)) (t : Except ε Tree) : Except ε (List Tree) :=
  match rest with
  | .error e => .error e
  | .ok rest => t.map (· :: rest)

mutual

/-- What the edit makes of a tree that was reached under a key. -/
def rebuild (key : ParentKey) : Tree → Except ε Tree
  | .leaf value => .ok (.leaf value)
  | .seq items =>
    match r.itemFault? items with
    | some e => .error e
    | none => (rebuildItems 0 items).map .seq
  | .keyed fields => (rebuildFields key fields).map .keyed

/-- What the edit makes of items that stand in the new sequence from `index` on. -/
def rebuildItems (index : Nat) : List Tree → Except ε (List Tree)
  | [] => .ok []
  | t :: rest =>
    match r.item t with
    | .error e => .error e
    | .ok (some lines) =>
      (rebuildItems (index + lines.length) rest).map (r.lineElements index lines ++ ·)
    | .ok none => putFirst (rebuildItems (index + 1) rest) (rebuild (.index index) t)

/-- What the edit makes of the fields of a node that was reached under a key. -/
def rebuildFields (key : ParentKey) : List (Text × Tree) → Except ε (List (Text × Tree))
  | [] => .ok []
  | (name, t) :: rest =>
    match rebuildFields key rest with
    | .error e => .error e
    | .ok rest => (rebuild (.field name) t).map fun t => LeafEdit.keep r.field key name t ++ rest

end

/-- The tree that a job is to give. -/
def rebuildJob : Job → Except ε Tree
  | .fields fs key => r.rebuild key (.keyed fs)
  | .items ts key => r.rebuild key (.seq ts)
  | .line content key => .ok (r.lineElement key content)

/-! ## Jobs and their trees -/

/-- The trees of the jobs, in reverse on top of a stack, fill the slots with the result. -/
def Fills (slots : List (Option Scalar)) (jobs : List Job) (result : Except ε (List Tree)) :
    Prop :=
  match jobs.reverse.mapM r.rebuildJob with
  | .error e => result = .error e
  | .ok trees =>
    ∃ filled, result = .ok filled ∧ ∀ base, Shell.fill slots (trees ++ base) = (filled, base)

theorem mapM_concat {α β : Type} (f : α → Except ε β) (as : List α) (a : α) :
    (as ++ [a]).mapM f =
      match as.mapM f with
      | .error e => .error e
      | .ok bs => (f a).map (bs ++ [·]) := by
  rw [List.mapM_append]
  cases as.mapM f with
  | error e => rfl
  | ok bs =>
    simp only [List.mapM_cons, List.mapM_nil]
    cases f a <;> rfl

variable {r}

theorem Fills.nil : r.Fills [] [] (.ok []) := ⟨[], rfl, fun _ => rfl⟩

theorem Fills.value {slots : List (Option Scalar)} {jobs : List Job}
    {result : Except ε (List Tree)} (h : r.Fills slots jobs result) (value : Scalar) :
    r.Fills (some value :: slots) jobs (result.map (.leaf value :: ·)) := by
  unfold Fills at *
  cases hjobs : jobs.reverse.mapM r.rebuildJob with
  | error e => simp only [hjobs] at h ⊢; rw [h]; rfl
  | ok trees =>
    simp only [hjobs] at h ⊢
    obtain ⟨filled, rfl, hfill⟩ := h
    exact ⟨.leaf value :: filled, rfl, fun base => by simp only [Shell.fill, hfill]⟩

theorem Fills.hole {slots : List (Option Scalar)} {jobs : List Job}
    {result : Except ε (List Tree)} (h : r.Fills slots jobs result) (job : Job) :
    r.Fills (none :: slots) (job :: jobs) (putFirst result (r.rebuildJob job)) := by
  unfold Fills at *
  rw [List.reverse_cons, mapM_concat]
  cases hjobs : jobs.reverse.mapM r.rebuildJob with
  | error e => simp only [hjobs] at h ⊢; rw [h]; rfl
  | ok trees =>
    simp only [hjobs] at h ⊢
    obtain ⟨filled, rfl, hfill⟩ := h
    cases r.rebuildJob job with
    | error e => rfl
    | ok t =>
      refine ⟨t :: filled, rfl, ?_⟩
      intro base
      simp only [Shell.fill, List.append_assoc, List.singleton_append, hfill]

theorem Fills.lines {slots : List (Option Scalar)} {jobs : List Job}
    {result : Except ε (List Tree)} (h : r.Fills slots jobs result) (index : Nat)
    (lines : List Text) :
    r.Fills (lines.map (fun _ => none) ++ slots) (lineJobs index lines ++ jobs)
      (result.map (r.lineElements index lines ++ ·)) := by
  induction lines generalizing index with
  | nil => cases result <;> exact h
  | cons line rest ih =>
    have hhole := (ih (index + 1)).hole (.line line (.index index))
    cases result <;> exact hhole

variable (r)

theorem rebuildFields_container (key : ParentKey) (name : Text) {t : Tree} (ht : t.kind ≠ .leaf)
    (rest : Fields) :
    r.rebuildFields key ((name, t) :: rest) =
      match r.rebuildFields key rest with
      | .error e => .error e
      | .ok rest => (r.rebuild (.field name) t).map fun t => (name, t) :: rest := by
  rw [rebuildFields]
  cases r.rebuildFields key rest with
  | error e => rfl
  | ok rest =>
    cases t with
    | leaf value => exact absurd rfl ht
    | seq items =>
      simp only [rebuild]
      cases r.itemFault? items with
      | some e => rfl
      | none => cases r.rebuildItems 0 items <;> rfl
    | keyed fields =>
      simp only [rebuild]
      cases r.rebuildFields (.field name) fields <;> rfl

theorem map_snd_rebuildFields (key : ParentKey) (name : Text) {t : Tree} (ht : t.kind ≠ .leaf)
    (rest : Fields) :
    (r.rebuildFields key ((name, t) :: rest)).map (·.map Prod.snd) =
      putFirst ((r.rebuildFields key rest).map (·.map Prod.snd)) (r.rebuild (.field name) t) := by
  rw [rebuildFields_container r key name ht]
  cases r.rebuildFields key rest with
  | error e => rfl
  | ok rest => cases r.rebuild (.field name) t <;> rfl

theorem fills_visitFields (key : ParentKey) (fs : Fields) :
    r.Fills ((r.visitFields key fs).1.map Prod.snd) (r.visitFields key fs).2
      ((r.rebuildFields key fs).map (·.map Prod.snd)) := by
  induction fs with
  | nil => exact .nil
  | cons field rest ih =>
    obtain ⟨name, t⟩ := field
    cases t with
    | leaf value =>
      simp only [visitFields, rebuildFields, rebuild]
      cases hfield : r.field name value key with
      | none =>
        cases hrest : r.rebuildFields key rest <;>
          simpa [hrest, hfield, Except.map, LeafEdit.keep] using ih
      | some value =>
        have hvalue := ih.value value
        cases hrest : r.rebuildFields key rest <;>
          simpa [hrest, hfield, Except.map, LeafEdit.keep] using hvalue
    | seq items =>
      rw [map_snd_rebuildFields r key name (by simp [Tree.kind])]
      exact ih.hole (.items items (.field name))
    | keyed fields =>
      rw [map_snd_rebuildFields r key name (by simp [Tree.kind])]
      exact ih.hole (.fields fields (.field name))

theorem visitFields_names {key : ParentKey} {fs fs' : Fields}
    (h : r.rebuildFields key fs = .ok fs') :
    (r.visitFields key fs).1.map Prod.fst = fs'.map Prod.fst := by
  induction fs generalizing fs' with
  | nil => cases h; rfl
  | cons field rest ih =>
    obtain ⟨name, t⟩ := field
    cases hrest : r.rebuildFields key rest with
    | error e => rw [rebuildFields, hrest] at h; cases h
    | ok rest' =>
      have hnames := ih hrest
      have hcontainer {t : Tree} (ht : t.kind ≠ .leaf)
          (h : r.rebuildFields key ((name, t) :: rest) = .ok fs') :
          fs'.map Prod.fst = name :: rest'.map Prod.fst := by
        rw [rebuildFields_container r key name ht, hrest] at h
        cases hrebuild : r.rebuild (.field name) t with
        | error e => rw [hrebuild] at h; cases h
        | ok t' => rw [hrebuild] at h; cases h; rfl
      cases t with
      | leaf value =>
        rw [rebuildFields, hrest, rebuild] at h
        cases h
        cases hfield : r.field name value key <;> simp [visitFields, LeafEdit.keep, hfield, hnames]
      | seq items => simp [visitFields, hnames, hcontainer (by simp [Tree.kind]) h]
      | keyed fields => simp [visitFields, hnames, hcontainer (by simp [Tree.kind]) h]

theorem visitItems_error {index : Nat} {ts : List Tree} {e : ε}
    (h : r.visitItems index ts = .error e) : r.itemFault? ts = some e := by
  induction ts generalizing index with
  | nil => cases h
  | cons t rest ih =>
    rw [visitItems] at h
    rw [itemFault?]
    cases hitem : r.item t with
    | error e' => rw [hitem] at h; cases h; rfl
    | ok lines? =>
      rw [hitem] at h
      cases lines? with
      | some lines =>
        cases hrest : r.visitItems (index + lines.length) rest with
        | error e' => simp only [hrest] at h; cases h; exact ih hrest
        | ok visited => simp only [hrest] at h; cases h
      | none =>
        cases hrest : r.visitItems (index + 1) rest with
        | error e' => simp only [hrest] at h; cases h; exact ih hrest
        | ok visited => simp only [hrest] at h; cases t <;> cases h

theorem fills_visitItems {index : Nat} {ts : List Tree} {slots : List (Option Scalar)}
    {jobs : List Job} (h : r.visitItems index ts = .ok (slots, jobs)) :
    r.itemFault? ts = none ∧ r.Fills slots jobs (r.rebuildItems index ts) := by
  induction ts generalizing index slots jobs with
  | nil => cases h; exact ⟨rfl, .nil⟩
  | cons t rest ih =>
    rw [visitItems] at h
    rw [itemFault?, rebuildItems]
    cases hitem : r.item t with
    | error e => rw [hitem] at h; cases h
    | ok lines? =>
      rw [hitem] at h
      cases lines? with
      | some lines =>
        cases hrest : r.visitItems (index + lines.length) rest with
        | error e => simp only [hrest] at h; cases h
        | ok visited =>
          simp only [hrest] at h
          cases h
          obtain ⟨hfault, hfills⟩ := ih hrest
          exact ⟨hfault, hfills.lines index lines⟩
      | none =>
        cases hrest : r.visitItems (index + 1) rest with
        | error e => simp only [hrest] at h; cases h
        | ok visited =>
          simp only [hrest] at h
          obtain ⟨hfault, hfills⟩ := ih hrest
          refine ⟨hfault, ?_⟩
          cases t with
          | leaf value =>
            cases h
            have hvalue := hfills.value value
            simp only [rebuild]
            cases hitems : r.rebuildItems (index + 1) rest <;> rwa [hitems] at hvalue
          | seq items => cases h; exact hfills.hole (.items items (.index index))
          | keyed fields => cases h; exact hfills.hole (.fields fields (.index index))

/-! ## The walk -/

theorem rebuildJob_error {job : Job} {e : ε} (h : r.visit job = .error e) :
    r.rebuildJob job = .error e := by
  cases job with
  | fields fs key => cases h
  | items ts key =>
    rw [visit] at h
    cases hvisit : r.visitItems 0 ts with
    | error e' =>
      rw [hvisit] at h
      cases h
      simp only [rebuildJob, rebuild, visitItems_error r hvisit]
    | ok visited => rw [hvisit] at h; cases h
  | line content key => cases h

theorem close_visitFields (key : ParentKey) (fs : Fields) :
    match (r.visitFields key fs).2.reverse.mapM r.rebuildJob with
    | .error e => r.rebuild key (.keyed fs) = .error e
    | .ok trees =>
      ∃ t, r.rebuild key (.keyed fs) = .ok t ∧
        ∀ base, Shell.close (trees ++ base) (.keyed (r.visitFields key fs).1) = t :: base := by
  have hfills := r.fills_visitFields key fs
  unfold Fills at hfills
  rw [rebuild]
  cases hjobs : (r.visitFields key fs).2.reverse.mapM r.rebuildJob with
  | error e =>
    simp only [hjobs] at hfills ⊢
    cases hfields : r.rebuildFields key fs <;> rw [hfields] at hfills <;> cases hfills
    rfl
  | ok trees =>
    simp only [hjobs] at hfills ⊢
    obtain ⟨filled, hok, hfill⟩ := hfills
    cases hfields : r.rebuildFields key fs with
    | error e => rw [hfields] at hok; cases hok
    | ok fs' =>
      rw [hfields] at hok
      cases hok
      refine ⟨.keyed fs', rfl, ?_⟩
      intro base
      simp only [Shell.close, hfill, r.visitFields_names hfields]
      rw [← List.zip_of_prod rfl rfl]

/-- The shell of a container closes around the trees of the jobs that visiting it leaves. -/
theorem close_visit {job : Job} {shell : Shell} {jobs : List Job}
    (h : r.visit job = .ok (shell, jobs)) :
    match jobs.reverse.mapM r.rebuildJob with
    | .error e => r.rebuildJob job = .error e
    | .ok trees =>
      ∃ t, r.rebuildJob job = .ok t ∧ ∀ base, Shell.close (trees ++ base) shell = t :: base := by
  cases job with
  | fields fs key => cases h; exact r.close_visitFields key fs
  | items ts key =>
    rw [visit] at h
    cases hvisit : r.visitItems 0 ts with
    | error e => rw [hvisit] at h; cases h
    | ok visited =>
      rw [hvisit] at h
      cases h
      obtain ⟨hfault, hfills⟩ := r.fills_visitItems hvisit
      unfold Fills at hfills
      simp only [rebuildJob, rebuild, hfault]
      cases hjobs : visited.2.reverse.mapM r.rebuildJob with
      | error e => simp only [hjobs] at hfills ⊢; rw [hfills]; rfl
      | ok trees =>
        simp only [hjobs] at hfills ⊢
        obtain ⟨filled, hok, hfill⟩ := hfills
        exact ⟨.seq filled, by rw [hok]; rfl, fun base => by simp only [Shell.close, hfill]⟩
  | line content key =>
    cases h
    have hclose := r.close_visitFields key (lineFields content)
    have hjobs : (r.visitFields key (lineFields content)).2 = [] := by
      simp only [lineFields, visitFields]
      split <;> split <;> rfl
    rw [hjobs] at hclose
    exact hclose

/-- The walk meets the fault that rebuilding the jobs on the stack meets, and else its shells close
around their trees, the tree of the first job on top. -/
theorem walk_eq (stack : List Job) (log : List Shell) :
    match stack.mapM r.rebuildJob with
    | .error e => r.walk stack log = .error e
    | .ok trees =>
      ∃ visited, r.walk stack log = .ok (visited ++ log) ∧
        ∀ base, visited.foldl Shell.close base = trees ++ base := by
  fun_induction r.walk stack log with
  | case1 log => exact ⟨[], rfl, fun _ => rfl⟩
  | case2 log job rest e hvisit =>
    rw [List.mapM_cons, r.rebuildJob_error hvisit]
    rfl
  | case3 log job rest shell jobs hvisit ih =>
    have hclose := r.close_visit hvisit
    rw [List.mapM_append] at ih
    rw [List.mapM_cons]
    cases hjobs : jobs.reverse.mapM r.rebuildJob with
    | error e =>
      rw [hjobs] at ih hclose
      simp only at hclose
      rw [hclose]
      exact ih
    | ok children =>
      rw [hjobs] at ih hclose
      obtain ⟨t, ht, hshell⟩ := hclose
      rw [ht]
      cases hrest : rest.mapM r.rebuildJob with
      | error e => rw [hrest] at ih; exact ih
      | ok trees =>
        rw [hrest] at ih
        obtain ⟨visited, hwalk, hfold⟩ := ih
        refine ⟨visited ++ [shell], by rw [hwalk]; simp, ?_⟩
        intro base
        rw [List.foldl_append, hfold]
        simp [hshell]

end Edit

theorem Tree.edit_eq_rebuild {ε : Type} (r : Edit ε) (t : Tree) :
    t.edit r = r.rebuild .root t := by
  have hroot (job : Job) (hjob : t.job? .root = some job) :
      t.edit r = r.rebuildJob job := by
    have hwalk := r.walk_eq [job] []
    rw [List.mapM_cons, List.mapM_nil] at hwalk
    rw [Tree.edit, hjob]
    cases hrebuild : r.rebuildJob job with
    | error e =>
      rw [hrebuild] at hwalk
      simp only [show r.walk [job] [] = .error e from hwalk]
    | ok t' =>
      rw [hrebuild] at hwalk
      obtain ⟨visited, hok, hfold⟩ := hwalk
      simp only [hok, Shell.assemble, List.append_nil, hfold]
      rfl
  cases t with
  | leaf value => rfl
  | seq items => exact hroot (.items items .root) rfl
  | keyed fields => exact hroot (.fields fields .root) rfl

end FluentFixtures
