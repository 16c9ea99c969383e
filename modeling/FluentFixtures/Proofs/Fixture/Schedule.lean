import FluentFixtures.Proofs.Fixture.Directory
import Mathlib.Logic.Function.Basic

/-!
# Fixtures in any order

The fixtures of a directory can also be done side by side. The unit of a fixture
reads the file and finds its normal form in one step and writes it in another,
and the steps of all units come in any order. `Consistent` is what every step
keeps: what a unit holds is the normal form of what its file held at the start,
and until it is written the file holds that still. So in whatever order the steps
come, they end as the run in order does: `interleaved_eq_normalizeFound`.
-/

namespace FluentFixtures.Fixture

open Files

/-! ## Units -/

/-- How far a unit has come: it has done nothing, it holds the bytes that it is to write, or it has
come to its end. -/
inductive Stage where
  | waiting
  | holding (bytes : Bytes) (changed : Bool)
  | ended (outcome : Except FixtureError FixtureResult)

/-- The first step: a unit reads its file and finds the normal form. A check ends here. -/
def prepare (fs : FileSystem) (settings : Settings) (check : Bool) (path : Path) : Stage :=
  match fs.openFile path.toText with
  | .error e => .ended (.error (.access e))
  | .ok (_, content) =>
    match normalForm settings content with
    | .error e => .ended (.error e)
    | .ok (normal, changed) =>
      if check then .ended (.ok ⟨path, changed, false⟩)
      else
        match Utf8.encode? normal with
        | none => .ended (.error .surrogate)
        | some bytes => .holding bytes changed

/-- The second step: a unit opens its file again and writes the bytes. -/
def deliver (fs : FileSystem) (path : Path) (bytes : Bytes) (changed : Bool) :
    FileSystem × Except FixtureError FixtureResult :=
  match fs.openFile path.toText with
  | .error e => (fs, .error (.access e))
  | .ok (place, _) => (fs.setContent place bytes, .ok ⟨path, changed, true⟩)

def stepCount (check : Bool) : Nat := if check then 1 else 2

def Stage.left (check : Bool) : Stage → Nat
  | waiting => stepCount check
  | holding _ _ => 1
  | ended _ => 0

/-- The files, and how far the unit of each fixture has come. -/
structure Units where
  files : FileSystem
  stage : Path → Stage

namespace Units

def start (fs : FileSystem) : Units := ⟨fs, fun _ => .waiting⟩

def set (units : Units) (files : FileSystem) (path : Path) (stage : Stage) : Units :=
  ⟨files, Function.update units.stage path stage⟩

def turn (settings : Settings) (check : Bool) (units : Units) (path : Path) : Units :=
  match units.stage path with
  | .waiting => units.set units.files path (prepare units.files settings check path)
  | .holding bytes changed =>
    let (files, outcome) := deliver units.files path bytes changed
    units.set files path (.ended outcome)
  | .ended _ => units

def run (settings : Settings) (check : Bool) (units : Units) (turns : List Path) : Units :=
  turns.foldl (turn settings check) units

end Units

/-- Whether in these turns every unit does all its steps, and nothing else is done. -/
structure Interleaves (check : Bool) (paths turns : List Path) : Prop where
  mem : ∀ path ∈ turns, path ∈ paths
  count : ∀ path ∈ paths, turns.count path = stepCount check

variable {fs now after : FileSystem} {settings : Settings} {check changed : Bool}
  {path other : Path} {place : Location} {bytes : Bytes} {stage : Stage} {units : Units}
  {outcome : Except FixtureError FixtureResult} {paths turns : List Path}

/-! ## The steps of one unit -/

theorem prepare_congr (h : now.openFile path.toText = fs.openFile path.toText) :
    prepare now settings check path = prepare fs settings check path := by
  unfold prepare
  rw [h]

/-- A unit that ends with its first step comes to what becomes of its fixture, and one that does not
has only to write. -/
theorem prepare_cases (fs : FileSystem) (settings : Settings) (check : Bool) (path : Path) :
    (∃ outcome, prepare fs settings check path = .ended outcome ∧
        normalize fs settings check path = (fs, outcome)) ∨
      ∃ bytes changed place content, prepare fs settings check path = .holding bytes changed ∧
        check = false ∧ fs.openFile path.toText = .ok (place, content) ∧
        normalize fs settings check path = (fs.setContent place bytes, .ok ⟨path, changed, true⟩) := by
  unfold prepare normalize
  cases fs.openFile path.toText with
  | error e => exact .inl ⟨_, rfl, rfl⟩
  | ok found =>
    obtain ⟨place, content⟩ := found
    simp only
    cases normalForm settings content with
    | error e => exact .inl ⟨_, rfl, rfl⟩
    | ok normal =>
      cases check with
      | true => exact .inl ⟨_, rfl, rfl⟩
      | false =>
        simp only [Bool.false_eq_true, if_false]
        cases Utf8.encode? normal.1 with
        | none => exact .inl ⟨_, rfl, rfl⟩
        | some bytes => exact .inr ⟨bytes, normal.2, place, content, by simp⟩

/-- Where a unit stands in the course of its fixture, told from the files at the start: until it has
written, its file holds what it held, and what the unit holds comes from that. -/
inductive Stage.Own (fs now : FileSystem) (settings : Settings) (check : Bool) (path : Path) :
    Stage → Prop where
  | waiting (h : now.openFile path.toText = fs.openFile path.toText) :
    Own fs now settings check path .waiting
  | holding {bytes : Bytes} {changed : Bool}
    (h : now.openFile path.toText = fs.openFile path.toText)
    (hread : prepare fs settings check path = .holding bytes changed) :
    Own fs now settings check path (.holding bytes changed)
  | ended
    (h : now.openFile path.toText = (normalize fs settings check path).1.openFile path.toText) :
    Own fs now settings check path (.ended (normalize fs settings check path).2)

theorem Stage.Own.congr (h : stage.Own fs now settings check path)
    (hsame : after.openFile path.toText = now.openFile path.toText) :
    stage.Own fs after settings check path := by
  cases h with
  | waiting h => exact .waiting (hsame.trans h)
  | holding h hread => exact .holding (hsame.trans h) hread
  | ended h => exact .ended (hsame.trans h)

theorem own_prepare (h : now.openFile path.toText = fs.openFile path.toText) :
    (prepare now settings check path).Own fs now settings check path := by
  rw [prepare_congr h]
  rcases prepare_cases fs settings check path with ⟨outcome, hprepare, hrun⟩ |
    ⟨bytes, changed, -, -, hprepare, -, -, -⟩
  · have hopen : now.openFile path.toText =
        (normalize fs settings check path).1.openFile path.toText := by rw [hrun, h]
    have hended := Stage.Own.ended hopen
    rw [hrun] at hended
    rw [hprepare]
    exact hended
  · rw [hprepare]
    exact .holding h hprepare

theorem deliver_of_holding (h : now.openFile path.toText = fs.openFile path.toText)
    (hread : prepare fs settings check path = .holding bytes changed) :
    ∃ place, fs.resolve path.toText = .ok place ∧
      deliver now path bytes changed =
        (now.setContent place bytes, (normalize fs settings check path).2) ∧
      (now.setContent place bytes).openFile path.toText =
        (normalize fs settings check path).1.openFile path.toText := by
  rcases prepare_cases fs settings check path with ⟨outcome, hprepare, -⟩ |
    ⟨bytes', changed', place, content, hprepare, -, hopen, hrun⟩
  · cases hprepare.symm.trans hread
  · cases hprepare.symm.trans hread
    rw [hopen] at h
    obtain ⟨hplace, -⟩ := FileSystem.openFile_eq_ok_iff.mp hopen
    refine ⟨place, hplace, ?_, ?_⟩
    · simp only [deliver, h, hrun]
    · rw [hrun, FileSystem.openFile_setContent_self h, FileSystem.openFile_setContent_self hopen]

/-! ## Turns -/

namespace Units

/-- What holds of units at different places whatever turns they have taken. -/
structure Consistent (fs : FileSystem) (settings : Settings) (check : Bool) (paths : List Path)
    (units : Units) : Prop where
  own : ∀ path ∈ paths, (units.stage path).Own fs units.files settings check path
  untouched : ∀ place, (∀ path ∈ paths, fs.resolve path.toText ≠ .ok place) →
    units.files.node? place = fs.node? place
  places : units.files.entries.map Entry.place = fs.entries.map Entry.place
  resolve : ∀ text, units.files.resolve text = fs.resolve text
  workingDirectory : units.files.workingDirectory = fs.workingDirectory

theorem consistent_start (fs : FileSystem) (settings : Settings) (check : Bool)
    (paths : List Path) : (start fs).Consistent fs settings check paths where
  own _ _ := .waiting rfl
  untouched _ _ := rfl
  places := rfl
  resolve _ := rfl
  workingDirectory := rfl

@[simp] theorem files_set (units : Units) (files : FileSystem) (path : Path) (stage : Stage) :
    (units.set files path stage).files = files := rfl

@[simp] theorem stage_set_self (units : Units) (files : FileSystem) (path : Path) (stage : Stage) :
    (units.set files path stage).stage path = stage := by
  show Function.update units.stage path stage path = stage
  exact Function.update_self ..

theorem stage_set_of_ne (hne : other ≠ path) (units : Units) (files : FileSystem) (stage : Stage) :
    (units.set files path stage).stage other = units.stage other := by
  show Function.update units.stage path stage other = units.stage other
  exact Function.update_of_ne hne ..

theorem turn_of_waiting (h : units.stage path = .waiting) : units.turn settings check path =
    units.set units.files path (prepare units.files settings check path) := by
  rw [turn, h]

theorem turn_of_holding (h : units.stage path = .holding bytes changed) :
    units.turn settings check path =
      units.set (deliver units.files path bytes changed).1 path
        (.ended (deliver units.files path bytes changed).2) := by
  rw [turn, h]

theorem turn_of_ended (h : units.stage path = .ended outcome) :
    units.turn settings check path = units := by
  rw [turn, h]

theorem stage_turn_of_ne (hne : other ≠ path) :
    (units.turn settings check path).stage other = units.stage other := by
  unfold turn
  split
  · exact stage_set_of_ne hne _ _ _
  · exact stage_set_of_ne hne _ _ _
  · rfl

theorem run_at_once (fs : FileSystem) (settings : Settings) (check : Bool) (path : Path) :
    ((start fs).run settings check (List.replicate (stepCount check) path)).files =
        (normalize fs settings check path).1 ∧
      ((start fs).run settings check (List.replicate (stepCount check) path)).stage path =
        .ended (normalize fs settings check path).2 := by
  have hfirst : (start fs).turn settings check path =
      (start fs).set fs path (prepare fs settings check path) := turn_of_waiting rfl
  rcases prepare_cases fs settings check path with ⟨outcome, hprepare, hrun⟩ |
    ⟨bytes, changed, place, content, hprepare, rfl, hopen, hrun⟩
  · -- Further turns change nothing.
    rw [hprepare] at hfirst
    have hsecond : ((start fs).turn settings check path).turn settings check path =
        (start fs).turn settings check path := by
      rw [hfirst]
      exact turn_of_ended (stage_set_self _ _ _ _)
    have hall : (start fs).run settings check (List.replicate (stepCount check) path) =
        (start fs).turn settings check path := by
      cases check with
      | true => rfl
      | false => exact hsecond
    rw [hall, hfirst, hrun]
    exact ⟨rfl, stage_set_self _ _ _ _⟩
  · rw [hprepare] at hfirst
    have hall : (start fs).run settings false (List.replicate (stepCount false) path) =
        ((start fs).turn settings false path).turn settings false path := rfl
    rw [hall, hfirst, turn_of_holding (stage_set_self _ _ _ _), hrun]
    simp only [files_set, stage_set_self, deliver, hopen]
    exact ⟨trivial, trivial⟩

/-- What holds of all units, when one comes to a stage that is in the course of its fixture and no
other file changes. -/
theorem Consistent.own_set (h : units.Consistent fs settings check paths)
    (hown : stage.Own fs after settings check path)
    (hothers : ∀ other ∈ paths, other ≠ path →
      after.openFile other.toText = units.files.openFile other.toText) :
    ∀ other ∈ paths,
      ((units.set after path stage).stage other).Own fs after settings check other := by
  intro other hother
  by_cases hne : other = path
  · subst hne
    rw [stage_set_self]
    exact hown
  · rw [stage_set_of_ne hne]
    exact (h.own other hother).congr (hothers other hother hne)

theorem Consistent.turn (h : units.Consistent fs settings check paths)
    (hapart : ∀ p ∈ paths, ∀ q ∈ paths, p ≠ q → Apart fs p q) (hpath : path ∈ paths) :
    (units.turn settings check path).Consistent fs settings check paths := by
  have hown := h.own path hpath
  cases hstage : units.stage path with
  | waiting =>
    rw [hstage] at hown
    obtain ⟨hopen⟩ := hown
    rw [turn_of_waiting hstage]
    exact { h with own := h.own_set (own_prepare hopen) fun _ _ _ => rfl }
  | holding bytes changed =>
    rw [hstage] at hown
    obtain _ | ⟨hopen, hread⟩ := hown
    obtain ⟨place, hplace, hdeliver, hwritten⟩ := deliver_of_holding hopen hread
    rw [turn_of_holding hstage, hdeliver]
    constructor
    case own =>
      refine h.own_set (.ended hwritten) fun other hother hne => ?_
      refine FileSystem.openFile_setContent_of_ne ?_
      rw [h.resolve]
      exact hapart path hpath other hother (Ne.symm hne) place hplace
    case untouched =>
      intro target htarget
      have hne : target ≠ place := by
        rintro rfl
        exact htarget path hpath hplace
      exact (FileSystem.node?_setContent_of_ne hne).trans (h.untouched target htarget)
    case places => exact (FileSystem.places_setContent _ _ _).trans h.places
    case resolve => exact fun text => (FileSystem.resolve_setContent _ _ _ text).trans (h.resolve text)
    case workingDirectory => exact h.workingDirectory
  | ended outcome =>
    rw [turn_of_ended hstage]
    exact h

theorem Consistent.run (h : units.Consistent fs settings check paths)
    (hapart : ∀ p ∈ paths, ∀ q ∈ paths, p ≠ q → Apart fs p q) (hturns : ∀ path ∈ turns, path ∈ paths) :
    (units.run settings check turns).Consistent fs settings check paths := by
  induction turns generalizing units with
  | nil => exact h
  | cons path turns ih =>
    obtain ⟨hpath, hturns⟩ := List.forall_mem_cons.mp hturns
    exact ih (h.turn hapart hpath) hturns

theorem left_turn_self (settings : Settings) (check : Bool) (units : Units) (path : Path) :
    ((units.turn settings check path).stage path).left check ≤
      (units.stage path).left check - 1 := by
  cases hstage : units.stage path with
  | waiting =>
    rw [turn_of_waiting hstage, stage_set_self]
    rcases prepare_cases units.files settings check path with ⟨outcome, hprepare, -⟩ |
      ⟨bytes, changed, -, -, hprepare, rfl, -, -⟩
    · rw [hprepare]
      exact Nat.zero_le _
    · rw [hprepare]
      exact Nat.le_refl 1
  | holding bytes changed =>
    rw [turn_of_holding hstage, stage_set_self]
    exact Nat.zero_le _
  | ended outcome =>
    rw [turn_of_ended hstage, hstage]
    exact Nat.zero_le _

theorem left_run (settings : Settings) (check : Bool) (units : Units) (turns : List Path)
    (path : Path) : ((units.run settings check turns).stage path).left check ≤
      (units.stage path).left check - turns.count path := by
  induction turns generalizing units with
  | nil => exact Nat.le_refl _
  | cons next turns ih =>
    have hrest := ih (units.turn settings check next)
    by_cases hnext : next = path
    · subst hnext
      have hself := left_turn_self settings check units next
      rw [List.count_cons_self]
      exact hrest.trans (by omega)
    · rw [stage_turn_of_ne (Ne.symm hnext)] at hrest
      rw [List.count_cons_of_ne hnext]
      exact hrest

/-- In the end every unit has come to what becomes of its fixture. -/
theorem ended_of_interleaves (fs : FileSystem) (settings : Settings)
    (hapart : ∀ p ∈ paths, ∀ q ∈ paths, p ≠ q → Apart fs p q)
    (hturns : Interleaves check paths turns) (hpath : path ∈ paths) :
    ((start fs).run settings check turns).stage path =
        .ended (normalize fs settings check path).2 ∧
      ((start fs).run settings check turns).files.openFile path.toText =
        (normalize fs settings check path).1.openFile path.toText := by
  have hown := ((consistent_start fs settings check paths).run hapart hturns.mem).own path hpath
  have hleft := left_run settings check (start fs) turns path
  have hzero : ((start fs).stage path).left check - turns.count path = 0 := by
    rw [hturns.count path hpath]
    exact Nat.sub_self (stepCount check)
  rw [hzero, Nat.le_zero] at hleft
  cases hstage : ((start fs).run settings check turns).stage path with
  | waiting =>
    rw [hstage] at hleft
    cases check <;> cases hleft
  | holding bytes changed =>
    rw [hstage] at hleft
    cases hleft
  | ended outcome =>
    rw [hstage] at hown
    obtain _ | _ | hopen := hown
    exact ⟨rfl, hopen⟩

end Units

/-! ## The run in order -/

theorem places_normalize (fs : FileSystem) (settings : Settings) (check : Bool) (path : Path) :
    (normalize fs settings check path).1.entries.map Entry.place =
      fs.entries.map Entry.place := by
  rcases prepare_cases fs settings check path with ⟨_, -, hrun⟩ |
    ⟨bytes, _, place, _, -, -, -, hrun⟩
  · rw [hrun]
  · rw [hrun]
    exact FileSystem.places_setContent fs place bytes

theorem places_normalizeAll (fs : FileSystem) (settings : Settings) (check : Bool)
    (paths : List Path) :
    (normalizeAll settings check fs paths).files.entries.map Entry.place =
      fs.entries.map Entry.place := by
  induction paths generalizing fs with
  | nil => rfl
  | cons path paths ih =>
    have hplaces := places_normalize fs settings check path
    rcases hrun : normalize fs settings check path with ⟨fs', e | result⟩
    · rw [hrun] at hplaces
      rw [normalizeAll, hrun]
      exact hplaces
    · rw [hrun] at hplaces
      rw [normalizeAll, hrun]
      exact (ih fs').trans hplaces

theorem Ran.openFile_normalize (h : Ran fs after settings paths) (hpath : path ∈ paths) :
    after.openFile path.toText = (normalize fs settings false path).1.openFile path.toText := by
  obtain ⟨place, content, bytes, hopen, ⟨text, normal, htext, hnormal, hbytes⟩, hafter⟩ :=
    h.normalized path hpath
  obtain ⟨-, hrun⟩ := normalize_of_normal hopen htext hnormal hbytes
  rw [hafter, hrun, FileSystem.openFile_setContent_self hopen]

theorem normalizeAll_of_normal (hapart : paths.Pairwise (Apart fs))
    (hnormal : ∀ path ∈ paths, ∃ result, (normalize fs settings check path).2 = .ok result) :
    (normalizeAll settings check fs paths).failure = none ∧
      (paths.map fun path => (normalize fs settings check path).2) =
        (normalizeAll settings check fs paths).results.map .ok ∧
      (check = false → Ran fs (normalizeAll settings check fs paths).files settings paths) := by
  obtain ⟨done, rest, hpaths, hstops, hran⟩ := normalizeAll_stops settings check hapart
  rcases hstops.failure with ⟨rfl, hfailure⟩ | ⟨path, more, e, rfl, he, -⟩
  · rw [List.append_nil] at hpaths
    subst hpaths
    exact ⟨hfailure, hstops.results, hran⟩
  · obtain ⟨result, hresult⟩ := hnormal path (by simp [hpaths])
    cases he.symm.trans hresult

theorem openFile_normalize_of_ok {result : FixtureResult}
    (h : (normalize fs settings check path).2 = .ok result) :
    ∃ place content, fs.resolve path.toText = .ok place ∧
      (normalize fs settings check path).1.openFile path.toText = .ok (place, content) := by
  obtain ⟨place, content, text, normal, bytes, hopen, -, -, -, hcheck, hwrite⟩ := normal_of_ok h
  obtain ⟨hplace, -⟩ := FileSystem.openFile_eq_ok_iff.mp hopen
  cases check with
  | true => exact ⟨place, content, hplace, by rw [hcheck, hopen]⟩
  | false =>
    exact ⟨place, bytes, hplace, by rw [hwrite, FileSystem.openFile_setContent_self hopen]⟩

theorem forall_apart (h : paths.Pairwise (Apart fs)) :
    ∀ p ∈ paths, ∀ q ∈ paths, p ≠ q → Apart fs p q := by
  have : Std.Symm (Apart fs) := ⟨fun _ _ hpq place hq hp => hpq place hp hq⟩
  exact fun p hp q hq hne => h.forall hp hq hne

/-- Steps in any order leave what is left of each fixture when it is the only one, and all else as it
was. -/
theorem files_run_eq_of (hapart : paths.Pairwise (Apart fs))
    (hnormal : ∀ path ∈ paths, ∃ result, (normalize fs settings check path).2 = .ok result)
    (hturns : Interleaves check paths turns)
    (hleft : ∀ path ∈ paths, after.openFile path.toText =
      (normalize fs settings check path).1.openFile path.toText)
    (huntouched : ∀ place, (∀ path ∈ paths, fs.resolve path.toText ≠ .ok place) →
      after.node? place = fs.node? place)
    (hplaces : after.entries.map Entry.place = fs.entries.map Entry.place)
    (hdirectory : after.workingDirectory = fs.workingDirectory) :
    ((Units.start fs).run settings check turns).files = after := by
  have hunits := (Units.consistent_start fs settings check paths).run (forall_apart hapart)
    hturns.mem
  refine FileSystem.eq_of_node? (hunits.places.trans hplaces.symm) ?_
    (hunits.workingDirectory.trans hdirectory.symm)
  intro place
  by_cases hplace : ∀ path ∈ paths, fs.resolve path.toText ≠ .ok place
  · rw [hunits.untouched place hplace, huntouched place hplace]
  · push Not at hplace
    obtain ⟨path, hpath, hplace⟩ := hplace
    obtain ⟨result, hresult⟩ := hnormal path hpath
    obtain ⟨place', content, hplace', hopen⟩ := openFile_normalize_of_ok hresult
    cases hplace.symm.trans hplace'
    obtain ⟨-, hended⟩ := Units.ended_of_interleaves fs settings (forall_apart hapart) hturns hpath
    have hafter := hleft path hpath
    rw [hopen] at hended hafter
    rw [(FileSystem.openFile_eq_ok_iff.mp hended).2, (FileSystem.openFile_eq_ok_iff.mp hafter).2]

theorem files_run_eq (hapart : paths.Pairwise (Apart fs))
    (hnormal : ∀ path ∈ paths, ∃ result, (normalize fs settings check path).2 = .ok result)
    (hturns : Interleaves check paths turns) :
    ((Units.start fs).run settings check turns).files =
      (normalizeAll settings check fs paths).files := by
  cases check with
  | true =>
    rw [files_normalizeAll_check]
    refine files_run_eq_of hapart hnormal hturns ?_ (fun _ _ => rfl) rfl rfl
    intro path _
    rw [normalize_check]
  | false =>
    obtain ⟨-, -, hran⟩ := normalizeAll_of_normal hapart hnormal
    exact files_run_eq_of hapart hnormal hturns (fun _ => (hran rfl).openFile_normalize)
      (hran rfl).untouched (places_normalizeAll ..) (hran rfl).workingDirectory

/-- If each of the files that a pattern of one name finds in a directory has a normal form, then
units that do their steps in any order leave the same files and come to the same results as the run
in order. -/
theorem interleaved_eq_normalizeFound {t : Text} (hpattern : settings.pattern = .scalar (.str t))
    (ht : Pattern.OneName t) {directory : Text}
    (hfound : fs.search directory settings.pattern = .ok paths)
    (hnormal : ∀ path ∈ paths, ∃ result, (normalize fs settings check path).2 = .ok result)
    (hturns : Interleaves check paths turns) :
    ∃ results,
      normalizeFound fs settings check directory =
        (((Units.start fs).run settings check turns).files, .ok results) ∧
      paths.map ((Units.start fs).run settings check turns).stage =
        results.map fun result => .ended (.ok result) := by
  have hapart : paths.Pairwise (Apart fs) := by
    rw [hpattern] at hfound
    obtain ⟨around, hsorted, hfiles⟩ := FileSystem.fileIn_of_search ht hfound
    exact hsorted.imp_of_mem fun hp hq hlt =>
      apart_of_fileIn (hfiles _ hp).1 (hfiles _ hq).1 hlt
  obtain ⟨hfailure, hresults, -⟩ := normalizeAll_of_normal hapart hnormal
  refine ⟨(normalizeAll settings check fs paths).results, ?_, ?_⟩
  · rw [normalizeFound_eq check hfound, files_run_eq hapart hnormal hturns, Progress.outcome,
      hfailure]
    rfl
  · have hstages := List.map_congr_left fun path hpath =>
      (Units.ended_of_interleaves fs settings (forall_apart hapart) hturns hpath).1
    have hended := congrArg (List.map Stage.ended) hresults
    rw [List.map_map, List.map_map] at hended
    exact hstages.trans hended

def staleFiles : FileSystem := filesAround (namedContent "--x")

def stalePaths : List Path := [.ofText "a.json", .ofText "b.json", .ofText "c.json"]

/-- The first unit is the last to write but one, and the third reads before that. -/
def mixedTurns : List Path :=
  [.ofText "a.json", .ofText "b.json", .ofText "b.json", .ofText "c.json", .ofText "a.json",
    .ofText "c.json"]

theorem interleaves_mixedTurns : Interleaves false stalePaths mixedTurns where
  mem := by decide
  count := by decide

theorem normalize_staleFiles : ∀ path ∈ stalePaths,
    ∃ result, (normalize staleFiles .default false path).2 = .ok result := by
  have hnormal (name : Text) (hopen : staleFiles.openFile (Path.ofText name).toText =
      .ok ([name], namedContent "--x")) :
      ∃ result, (normalize staleFiles .default false (.ofText name)).2 = .ok result := by
    obtain ⟨-, hrun⟩ := normalize_of_normal hopen textOf_namedContent Document.normalize_named
      (encode?_normal Document.normalize_named)
    exact ⟨_, congrArg Prod.snd hrun⟩
  have hopen (name : Text) (hplace : staleFiles.resolve (Path.ofText name).toText = .ok [name])
      (hnode : staleFiles.node? [name] = some (.file (namedContent "--x"))) :=
    hnormal name (FileSystem.openFile_eq_ok_iff.mpr ⟨hplace, hnode⟩)
  intro path hpath
  simp only [stalePaths, List.mem_cons, List.not_mem_nil, or_false] at hpath
  rcases hpath with rfl | rfl | rfl
  · exact hopen "a.json" rfl rfl
  · exact hopen "b.json" rfl rfl
  · exact hopen "c.json" rfl rfl

/-- Three units whose steps are mixed leave what the run in order leaves. -/
theorem interleaved_eq_normalizeFound_mixedTurns :
    staleFiles.search "." Settings.default.pattern = .ok stalePaths ∧
      (∀ path ∈ stalePaths, ∃ result, (normalize staleFiles .default false path).2 = .ok result) ∧
      Interleaves false stalePaths mixedTurns ∧
      ∃ results, normalizeFound staleFiles .default false "." =
        (((Units.start staleFiles).run .default false mixedTurns).files, .ok results) := by
  have hfound : staleFiles.search "." Settings.default.pattern = .ok stalePaths :=
    search_filesAround (namedContent "--x")
  refine ⟨hfound, normalize_staleFiles, interleaves_mixedTurns, ?_⟩
  obtain ⟨results, hrun, -⟩ := interleaved_eq_normalizeFound rfl oneName_defaultPattern hfound
    normalize_staleFiles interleaves_mixedTurns
  exact ⟨results, hrun⟩

end FluentFixtures.Fixture
