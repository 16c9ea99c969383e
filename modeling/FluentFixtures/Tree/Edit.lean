import FluentFixtures.Tree.Basic

/-!
# Editing a tree with a stack

An `Edit` says what becomes of a leaf field and of an item of a sequence;
`Tree.edit` applies it to a whole tree of any depth. A job is a container to
visit. Visiting it leaves a `Shell`, the container with a hole for each
container inside it, and a job for each hole. The stack gives the last job
first, so that a container's own items come before anything below them, and its
last child comes before its first. The shells, last visited first, then close
around their children.
-/

namespace FluentFixtures

/-- How a node was reached: as the root, through a field, or at an index of a sequence. -/
inductive ParentKey where
  | root
  | field (name : Text)
  | index (position : Nat)
  deriving DecidableEq, Repr

/-- What becomes of leaf fields and of items: a field is changed or dropped, and an item is kept
or gives way to text elements, one for each line. -/
structure Edit (ε : Type) where
  field : Text → Scalar → ParentKey → Option Scalar := fun _ value _ => some value
  item : Tree → Except ε (Option (List Text)) := fun _ => .ok none

/-- A container to visit, with the key it was reached under. -/
inductive Job where
  | fields (fields : Fields) (key : ParentKey)
  | items (items : List Tree) (key : ParentKey)
  | line (content : Text) (key : ParentKey)

/-- A visited container: leaves are there, and `none` is a hole for a container. -/
inductive Shell where
  | keyed (slots : List (Text × Option Scalar))
  | seq (slots : List (Option Scalar))
  deriving Repr

namespace Tree

/-- The job of visiting a container. -/
def job? (key : ParentKey) : Tree → Option Job
  | .leaf _ => none
  | .seq items => some (.items items key)
  | .keyed fields => some (.fields fields key)

mutual

/-- The number of containers in a tree. -/
def containers : Tree → Nat
  | .leaf _ => 0
  | .seq items => 1 + containersOfItems items
  | .keyed fields => 1 + containersOfFields fields

def containersOfItems : List Tree → Nat
  | [] => 0
  | t :: rest => containers t + containersOfItems rest

def containersOfFields : List (Text × Tree) → Nat
  | [] => 0
  | (_, t) :: rest => containers t + containersOfFields rest

end

end Tree

namespace Job

/-- The number of containers of the old tree in a job. -/
def weight : Job → Nat
  | fields fs _ => 1 + Tree.containersOfFields fs
  | items ts _ => 1 + Tree.containersOfItems ts
  | line _ _ => 0

def totalWeight : List Job → Nat
  | [] => 0
  | job :: rest => job.weight + totalWeight rest

end Job

namespace Edit

variable {ε : Type} (r : Edit ε)

/-- The slots and jobs of the fields of a node. -/
def visitFields (key : ParentKey) : Fields → List (Text × Option Scalar) × List Job
  | [] => ([], [])
  | (name, t) :: rest =>
    let (slots, jobs) := visitFields key rest
    match t with
    | .leaf value =>
      match r.field name value key with
      | some value => ((name, some value) :: slots, jobs)
      | none => (slots, jobs)
    | .seq items => ((name, none) :: slots, .items items (.field name) :: jobs)
    | .keyed fields => ((name, none) :: slots, .fields fields (.field name) :: jobs)

/-- The jobs of lines that stand in a sequence from `index` on. -/
def lineJobs (index : Nat) : List Text → List Job
  | [] => []
  | line :: rest => .line line (.index index) :: lineJobs (index + 1) rest

/-- The slots and jobs of items that stand in the new sequence from `index` on. -/
def visitItems (index : Nat) : List Tree → Except ε (List (Option Scalar) × List Job)
  | [] => .ok ([], [])
  | t :: rest =>
    match r.item t with
    | .error e => .error e
    | .ok (some lines) =>
      match visitItems (index + lines.length) rest with
      | .error e => .error e
      | .ok (slots, jobs) =>
        .ok (lines.map (fun _ => none) ++ slots, lineJobs index lines ++ jobs)
    | .ok none =>
      match visitItems (index + 1) rest with
      | .error e => .error e
      | .ok (slots, jobs) =>
        match t with
        | .leaf value => .ok (some value :: slots, jobs)
        | .seq items => .ok (none :: slots, .items items (.index index) :: jobs)
        | .keyed fields => .ok (none :: slots, .fields fields (.index index) :: jobs)

/-- The fields of a new text element. -/
def lineFields (content : Text) : Fields :=
  [(typeField, .leaf (.str textElementType)), (valueField, .leaf (.str content))]

def visit : Job → Except ε (Shell × List Job)
  | .fields fs key =>
    let (slots, jobs) := r.visitFields key fs
    .ok (.keyed slots, jobs)
  | .items ts _ =>
    match r.visitItems 0 ts with
    | .error e => .error e
    | .ok (slots, jobs) => .ok (.seq slots, jobs)
  | .line content key => .ok (.keyed (r.visitFields key (lineFields content)).1, [])

theorem totalWeight_visitFields (key : ParentKey) (fs : Fields) :
    Job.totalWeight (r.visitFields key fs).2 = Tree.containersOfFields fs := by
  induction fs with
  | nil => rfl
  | cons field rest ih =>
    obtain ⟨name, t⟩ := field
    cases t with
    | leaf value =>
      simp only [visitFields, Tree.containersOfFields, Tree.containers, Nat.zero_add]
      split <;> exact ih
    | seq items =>
      simp only [visitFields, Tree.containersOfFields, Tree.containers, Job.totalWeight, Job.weight]
      exact congrArg _ ih
    | keyed fields =>
      simp only [visitFields, Tree.containersOfFields, Tree.containers, Job.totalWeight, Job.weight]
      exact congrArg _ ih

theorem totalWeight_lineJobs (index : Nat) (lines : List Text) :
    Job.totalWeight (lineJobs index lines) = 0 := by
  induction lines generalizing index with
  | nil => rfl
  | cons line rest ih =>
    simpa [lineJobs, Job.totalWeight, Job.weight] using ih (index + 1)

theorem totalWeight_append (a b : List Job) :
    Job.totalWeight (a ++ b) = Job.totalWeight a + Job.totalWeight b := by
  induction a with
  | nil => simp [Job.totalWeight]
  | cons job rest ih => simp only [List.cons_append, Job.totalWeight, ih, Nat.add_assoc]

theorem totalWeight_reverse (a : List Job) : Job.totalWeight a.reverse = Job.totalWeight a := by
  induction a with
  | nil => rfl
  | cons job rest ih =>
    simp only [List.reverse_cons, totalWeight_append, Job.totalWeight, ih]
    omega

theorem totalWeight_visitItems {index : Nat} {ts : List Tree} {slots : List (Option Scalar)}
    {jobs : List Job} (h : r.visitItems index ts = .ok (slots, jobs)) :
    Job.totalWeight jobs ≤ Tree.containersOfItems ts := by
  induction ts generalizing index slots jobs with
  | nil => simp_all [visitItems, Job.totalWeight, Tree.containersOfItems]
  | cons t rest ih =>
    simp only [visitItems] at h
    simp only [Tree.containersOfItems]
    split at h
    · cases h
    · split at h
      · cases h
      · next hrest =>
        cases h
        have := ih hrest
        rw [totalWeight_append, totalWeight_lineJobs]
        omega
    · split at h
      · cases h
      · next hrest =>
        have := ih hrest
        cases t <;> cases h <;>
          simp only [Tree.containers, Job.totalWeight, Job.weight] at this ⊢ <;> omega

/-- Visiting a container of the old tree leaves fewer of them; a new text element leaves no job. -/
theorem visit_decreases {job : Job} {shell : Shell} {jobs : List Job}
    (h : r.visit job = .ok (shell, jobs)) :
    Job.totalWeight jobs < job.weight ∨ (jobs = [] ∧ job.weight = 0) := by
  cases job with
  | fields fs key =>
    simp only [visit] at h
    cases h
    left
    rw [totalWeight_visitFields]
    simp only [Job.weight]
    omega
  | items ts key =>
    simp only [visit] at h
    split at h
    · cases h
    · next hitems =>
      cases h
      have := r.totalWeight_visitItems hitems
      left
      simp only [Job.weight]
      omega
  | line content key =>
    simp only [visit] at h
    cases h
    exact .inr ⟨rfl, rfl⟩

/-- Visits the jobs on the stack and those they leave, and puts the shells in front of the log. -/
def walk (stack : List Job) (log : List Shell) : Except ε (List Shell) :=
  match stack with
  | [] => .ok log
  | job :: rest =>
    match _h : r.visit job with
    | .error e => .error e
    | .ok (shell, jobs) => walk (jobs.reverse ++ rest) (shell :: log)
termination_by (Job.totalWeight stack, stack.length)
decreasing_by
  rw [totalWeight_append, totalWeight_reverse]
  rcases r.visit_decreases _h with hlt | ⟨hnil, hzero⟩
  · apply Prod.Lex.left
    simp only [Job.totalWeight] at hlt ⊢
    omega
  · subst hnil
    simp only [Job.totalWeight, hzero, Nat.zero_add, List.reverse_nil, List.nil_append]
    apply Prod.Lex.right
    simp

end Edit

namespace Shell

/-- Fills the holes from the last to the first with the trees on top of the stack. -/
def fill : List (Option Scalar) → List Tree → List Tree × List Tree
  | [], stack => ([], stack)
  | slot :: slots, stack =>
    let (filled, stack) := fill slots stack
    match slot, stack with
    | some value, stack => (.leaf value :: filled, stack)
    | none, t :: stack => (t :: filled, stack)
    | none, [] => (filled, [])

/-- Closes a shell around its children, which are on top of the stack, and puts it there. -/
def close (stack : List Tree) : Shell → List Tree
  | keyed slots =>
    let (filled, stack) := fill (slots.map Prod.snd) stack
    .keyed ((slots.map Prod.fst).zip filled) :: stack
  | seq slots =>
    let (filled, stack) := fill slots stack
    .seq filled :: stack

/-- The tree whose shells were visited, given last visited first. -/
def assemble (log : List Shell) : List Tree := log.foldl close []

end Shell

/-- Applies an edit to every container of a tree. -/
def Tree.edit {ε : Type} (r : Edit ε) (t : Tree) : Except ε Tree :=
  match t.job? .root with
  | none => .ok t
  | some job =>
    match r.walk [job] [] with
    | .error e => .error e
    | .ok log => .ok ((Shell.assemble log).headD t)

end FluentFixtures
