import FluentFixtures.Proofs.Faults
import FluentFixtures.Proofs.Files.Discovery
import FluentFixtures.Proofs.Fixture.Outcome

/-!
# Runs over the fixtures of a directory

What becomes of a fixture depends on its own content alone, and the files of a
directory are at different places. So a run normalizes each fixture as if it were
the only one, up to the first that fails, and leaves all else as it was:
`normalizeAll_stops`. A check fails at the same fixture and changes nothing:
`normalizeFound_prefix`.
-/

namespace FluentFixtures.Fixture

open Files

variable {fs fs' after : FileSystem} {settings : Settings} {check : Bool} {path other : Path}
  {place : Location} {content bytes : Bytes} {done rest paths : List Path}

/-! ## One fixture -/

/-- Whether two paths lead to different places. -/
def Apart (fs : FileSystem) (path other : Path) : Prop :=
  ∀ place, fs.resolve path.toText = .ok place → fs.resolve other.toText ≠ .ok place

/-- What becomes of a fixture depends on what its path leads to and on nothing else. -/
theorem outcome_congr (h : fs'.openFile path.toText = fs.openFile path.toText) :
    (normalize fs' settings check path).2 = (normalize fs settings check path).2 := by
  unfold normalize
  rw [h]
  cases fs.openFile path.toText with
  | error e => rfl
  | ok found =>
    obtain ⟨place, content⟩ := found
    simp only
    cases normalForm settings content with
    | error e => rfl
    | ok normal =>
      cases check with
      | true => rfl
      | false =>
        simp only [Bool.false_eq_true, if_false]
        cases Utf8.encode? normal.1 <;> rfl

/-- A fixture that fails changes nothing; else its content is replaced unless it is only checked. -/
theorem normalize_step (fs : FileSystem) (settings : Settings) (check : Bool) (path : Path) :
    (∃ e, normalize fs settings check path = (fs, .error e)) ∨
      ∃ fs' result, normalize fs settings check path = (fs', .ok result) ∧
        (∀ text, fs'.resolve text = fs.resolve text) ∧
        (∀ other, Apart fs path other → fs'.openFile other.toText = fs.openFile other.toText) ∧
        (check = false → ∃ place content bytes, fs.openFile path.toText = .ok (place, content) ∧
          Normalizes settings content bytes ∧ fs' = fs.setContent place bytes) := by
  rcases normalize_cases fs settings path with ⟨e, -, hrun⟩ | ⟨-, -, e, -, -, hrun⟩ |
    ⟨place, content, text, normal, bytes, hopen, htext, hnormal, hbytes, hcheck, hwrite⟩
  · exact .inl ⟨_, hrun check⟩
  · exact .inl ⟨_, hrun check⟩
  · cases check with
    | true => exact .inr ⟨fs, _, hcheck, fun _ => rfl, fun _ _ => rfl, nofun⟩
    | false =>
      obtain ⟨hplace, -⟩ := FileSystem.openFile_eq_ok_iff.mp hopen
      refine .inr ⟨_, _, hwrite, FileSystem.resolve_setContent fs place bytes, ?_, fun _ =>
        ⟨place, content, bytes, hopen, ⟨text, normal, htext, hnormal, hbytes⟩, rfl⟩⟩
      intro other hapart
      exact FileSystem.openFile_setContent_of_ne (hapart place hplace)

/-! ## What a run leaves -/

/-- Whether the fixtures that are done hold their normal forms and all else is as it was. -/
structure Ran (fs after : FileSystem) (settings : Settings) (done : List Path) : Prop where
  normalized : ∀ path ∈ done, ∃ place content bytes,
    fs.openFile path.toText = .ok (place, content) ∧ Normalizes settings content bytes ∧
      after.openFile path.toText = .ok (place, bytes)
  untouched : ∀ place, (∀ path ∈ done, fs.resolve path.toText ≠ .ok place) →
    after.node? place = fs.node? place
  resolve : ∀ text, after.resolve text = fs.resolve text
  workingDirectory : after.workingDirectory = fs.workingDirectory

namespace Ran

theorem nil (fs : FileSystem) (settings : Settings) : Ran fs fs settings [] where
  normalized _ h := absurd h List.not_mem_nil
  untouched _ _ := rfl
  resolve _ := rfl
  workingDirectory := rfl

theorem openFile_eq (h : Ran fs after settings done) (hapart : ∀ path ∈ done, Apart fs path other) :
    after.openFile other.toText = fs.openFile other.toText := by
  unfold FileSystem.openFile
  rw [h.resolve]
  cases hplace : fs.resolve other.toText with
  | error e => rfl
  | ok place =>
    have hnode := h.untouched place fun path hpath hsame => hapart path hpath place hsame hplace
    simp only [hnode]

theorem cons (hopen : fs.openFile path.toText = .ok (place, content))
    (hnormal : Normalizes settings content bytes)
    (h : Ran (fs.setContent place bytes) after settings done)
    (hapart : ∀ other ∈ done, Apart fs path other) : Ran fs after settings (path :: done) := by
  obtain ⟨hplace, -⟩ := FileSystem.openFile_eq_ok_iff.mp hopen
  have hresolve := FileSystem.resolve_setContent fs place bytes
  constructor
  case normalized =>
    intro target htarget
    rcases List.mem_cons.mp htarget with rfl | htarget
    · refine ⟨place, content, bytes, hopen, hnormal, ?_⟩
      rw [h.openFile_eq, FileSystem.openFile_setContent_self hopen]
      intro other hother target' hsame hplace'
      rw [hresolve] at hsame hplace'
      exact hapart other hother target' hplace' hsame
    · obtain ⟨place', content', bytes', hopen', hrest⟩ := h.normalized target htarget
      rw [FileSystem.openFile_setContent_of_ne (hapart target htarget place hplace)] at hopen'
      exact ⟨place', content', bytes', hopen', hrest⟩
  case untouched =>
    intro target htarget
    have hne : target ≠ place := by
      rintro rfl
      exact htarget path List.mem_cons_self hplace
    rw [h.untouched target, FileSystem.node?_setContent_of_ne hne]
    intro other hother
    rw [hresolve]
    exact htarget other (List.mem_cons_of_mem path hother)
  case resolve => exact fun text => (h.resolve text).trans (hresolve text)
  case workingDirectory => exact h.workingDirectory

end Ran

/-! ## How a run ends -/

/-- Whether fixtures that each come to their own outcome are done in order, up to the first that
fails. -/
structure Progress.Stops (progress : Progress) (own : Path → Except FixtureError FixtureResult)
    (done rest : List Path) : Prop where
  results : done.map own = progress.results.map .ok
  failure : (rest = [] ∧ progress.failure = none) ∨
    ∃ path more e, rest = path :: more ∧ own path = .error e ∧ progress.failure = some (path, e)

/-- The results, or why the run ended. -/
def Progress.outcome (progress : Progress) : Except FixtureError (List FixtureResult) :=
  match progress.failure with
  | some (_, e) => .error e
  | none => .ok progress.results

namespace Progress.Stops

variable {progress : Progress} {own own' : Path → Except FixtureError FixtureResult}

theorem congr (h : progress.Stops own done rest) (hown : ∀ path ∈ done ++ rest, own' path = own path) :
    progress.Stops own' done rest where
  results := by
    rw [← h.results]
    exact List.map_congr_left fun path hpath => hown path (List.mem_append_left rest hpath)
  failure := by
    refine h.failure.imp_right ?_
    rintro ⟨path, more, e, rfl, he, hfailure⟩
    refine ⟨path, more, e, rfl, ?_, hfailure⟩
    rw [hown path (List.mem_append_right done List.mem_cons_self), he]

/-- What a run comes to is what its fixtures come to one after another. -/
theorem outcome_eq (h : progress.Stops own done rest) :
    progress.outcome = (done ++ rest).mapM own := by
  unfold outcome
  rcases h.failure with ⟨rfl, hfailure⟩ | ⟨path, more, e, rfl, he, hfailure⟩
  · rw [hfailure, List.append_nil, mapM_of_map_eq h.results]
  · rw [hfailure, mapM_of_error h.results he]

end Progress.Stops

/-- Fixtures at different places are normalized, or checked, as if each were the only one, up to the
first that fails. -/
theorem normalizeAll_stops (settings : Settings) (check : Bool)
    (hapart : paths.Pairwise (Apart fs)) :
    ∃ done rest, paths = done ++ rest ∧
      (normalizeAll settings check fs paths).Stops (fun path => (normalize fs settings check path).2)
        done rest ∧
      (check = false → Ran fs (normalizeAll settings check fs paths).files settings done) := by
  induction paths generalizing fs with
  | nil =>
    refine ⟨[], [], rfl, ⟨rfl, .inl ⟨rfl, rfl⟩⟩, fun _ => Ran.nil fs settings⟩
  | cons path paths ih =>
    rcases normalize_step fs settings check path with ⟨e, hrun⟩ |
      ⟨fs', result, hrun, hresolve, hothers, hwritten⟩
    · have hall : normalizeAll settings check fs (path :: paths) = ⟨fs, [], some (path, e)⟩ := by
        rw [normalizeAll, hrun]
      rw [hall]
      refine ⟨[], path :: paths, rfl, ⟨rfl, .inr ⟨path, paths, e, rfl, ?_, rfl⟩⟩,
        fun _ => Ran.nil fs settings⟩
      exact congrArg Prod.snd hrun
    · -- The rest of the run starts from other files, but those still to come are as they were.
      have hapart' : paths.Pairwise (Apart fs') := by
        refine hapart.of_cons.imp ?_
        intro p q hpq place hp
        rw [hresolve] at hp ⊢
        exact hpq place hp
      obtain ⟨done, rest, rfl, hstops, hran⟩ := ih hapart'
      have hlater : ∀ other ∈ done ++ rest, Apart fs path other := fun other hother =>
        List.rel_of_pairwise_cons hapart hother
      have hown : ∀ other ∈ done ++ rest,
          (normalize fs settings check other).2 = (normalize fs' settings check other).2 :=
        fun other hother => (outcome_congr (hothers other (hlater other hother))).symm
      have hall : normalizeAll settings check fs (path :: (done ++ rest)) =
          { normalizeAll settings check fs' (done ++ rest) with
            results := result :: (normalizeAll settings check fs' (done ++ rest)).results } := by
        rw [normalizeAll, hrun]
      rw [hall]
      have hstops' := hstops.congr hown
      refine ⟨path :: done, rest, rfl, ⟨?_, hstops'.failure⟩, ?_⟩
      · rw [List.map_cons, List.map_cons, hrun, hstops'.results]
      · intro hcheck
        obtain ⟨place, content, bytes, hopen, hnormal, rfl⟩ := hwritten hcheck
        exact Ran.cons hopen hnormal (hran hcheck) fun other hother =>
          hlater other (List.mem_append_left rest hother)

theorem results_of_outcomes {results : List FixtureResult}
    (h : done.map (fun path => (normalize fs settings check path).2) = results.map .ok) :
    results.map FixtureResult.path = done ∧ ∀ result ∈ results, result.written = !check := by
  induction done generalizing results with
  | nil =>
    obtain rfl := List.map_eq_nil_iff.mp h.symm
    exact ⟨rfl, nofun⟩
  | cons path done ih =>
    cases results with
    | nil => cases h
    | cons result results =>
      obtain ⟨hresult, hresults⟩ := List.cons.inj h
      obtain ⟨hpath, hwritten⟩ := result_of_ok hresult
      obtain ⟨hpaths, hall⟩ := ih hresults
      rw [List.map_cons, hpath, hpaths]
      exact ⟨rfl, List.forall_mem_cons.mpr ⟨hwritten, hall⟩⟩

theorem files_normalizeAll_check (settings : Settings) (fs : FileSystem) (paths : List Path) :
    (normalizeAll settings true fs paths).files = fs := by
  induction paths with
  | nil => rfl
  | cons path paths ih =>
    have hfiles := normalize_check fs settings path
    rcases hrun : normalize fs settings true path with ⟨fs', e | result⟩
    · rw [hrun] at hfiles
      obtain rfl : fs' = fs := hfiles
      rw [normalizeAll, hrun]
    · rw [hrun] at hfiles
      obtain rfl : fs' = fs := hfiles
      rw [normalizeAll, hrun]
      exact ih

/-! ## Directories -/

theorem apart_of_fileIn {base : Path} {around : Location} (hpath : fs.FileIn base around path)
    (hother : fs.FileIn base around other) (hlt : Text.compare path.name other.name = .lt) :
    Apart fs path other := by
  obtain ⟨name, -, rfl, hplace, -⟩ := hpath
  obtain ⟨name', -, rfl, hplace', -⟩ := hother
  intro place h h'
  cases hplace.symm.trans h
  obtain ⟨rfl, -⟩ := List.cons.inj (Except.ok.inj (hplace'.symm.trans h'))
  rw [Path.name_child] at hlt
  have hself : Text.compare name' name' = .eq := Std.ReflCmp.compare_self
  cases hself.symm.trans hlt

theorem normalizeFound_eq {directory : Text} (check : Bool)
    (h : fs.search directory settings.pattern = .ok paths) :
    normalizeFound fs settings check directory =
      ((normalizeAll settings check fs paths).files,
        (normalizeAll settings check fs paths).outcome.mapError .fixture) := by
  rw [normalizeFound, h]
  simp only [Progress.outcome]
  cases (normalizeAll settings check fs paths).failure <;> rfl

/-- How a run and a check over the files of a directory end. -/
structure StopsAtFirst (fs : FileSystem) (settings : Settings) (directory : Text)
    (done rest : List Path) (results : List FixtureResult) : Prop where
  found : fs.search directory settings.pattern = .ok (done ++ rest)
  ascending : (done ++ rest).Pairwise fun p q => Text.compare p.name q.name = .lt
  /-- Those that are done come to their results on their own content. -/
  outcomes : done.map (fun p => (normalize fs settings false p).2) = results.map .ok
  /-- A run does all, or fails as the first of the rest does on its own content. -/
  ends : (rest = [] ∧ (normalizeFound fs settings false directory).2 = .ok results) ∨
    ∃ p more e, rest = p :: more ∧ (normalize fs settings false p).2 = .error e ∧
      (normalizeFound fs settings false directory).2 = .error (.fixture e)
  ran : Ran fs (normalizeFound fs settings false directory).1 settings done
  kept : ∀ p ∈ rest, (normalizeFound fs settings false directory).1.openFile p.toText =
    fs.openFile p.toText
  check_files : (normalizeFound fs settings true directory).1 = fs
  check_changed :
    (normalizeFound fs settings true directory).2.map (List.map FixtureResult.changed) =
      (normalizeFound fs settings false directory).2.map (List.map FixtureResult.changed)

/-- Over the files that a pattern of one name finds in a directory, a run normalizes each as if it
were the only one, up to the first that fails; those before it hold their normal forms, and it, those
after it and all else are as they were. A check comes to the same and changes nothing. If the system
refuses a path that the search needs, that is the error, and nothing is done. -/
theorem normalizeFound_prefix {t : Text} (hpattern : settings.pattern = .scalar (.str t))
    (ht : Pattern.OneName t) (fs : FileSystem) (directory : Text) :
    (∃ e, fs.Unsearchable t directory e ∧
        fs.search directory settings.pattern = .error (.access e) ∧
        ∀ check, normalizeFound fs settings check directory = (fs, .error (.search (.access e)))) ∨
      (∀ e, ¬ fs.Unsearchable t directory e) ∧
      ∃ done rest results around, StopsAtFirst fs settings directory done rest results ∧
        ∀ p ∈ done ++ rest, fs.FileIn (Path.ofText directory) around p ∧
          (Pattern.component t).Accepts p.name := by
  rcases FileSystem.search_cases ht fs directory with ⟨e, he, hsearch⟩ | ⟨hshort, paths, hsearch⟩
  · refine .inl ⟨e, he, by rw [hpattern, hsearch], fun check => ?_⟩
    rw [normalizeFound, hpattern, hsearch]
  obtain ⟨around, hsorted, hfiles⟩ := FileSystem.fileIn_of_search ht hsearch
  rw [← hpattern] at hsearch
  have hapart : paths.Pairwise (Apart fs) := hsorted.imp_of_mem fun hp hq hlt =>
    apart_of_fileIn (hfiles _ hp).1 (hfiles _ hq).1 hlt
  have hrun := normalizeFound_eq false hsearch
  have hcheck := normalizeFound_eq true hsearch
  obtain ⟨done, rest, rfl, hstops, hran⟩ := normalizeAll_stops settings false hapart
  obtain ⟨done', rest', hsplit, hstops', -⟩ := normalizeAll_stops settings true hapart
  refine .inr ⟨hshort, done, rest, (normalizeAll settings false fs (done ++ rest)).results, around,
    ?_, hfiles⟩
  constructor
  case found => exact hsearch
  case ascending => exact hsorted
  case outcomes => exact hstops.results
  case ends =>
    rw [hrun, Progress.outcome]
    rcases hstops.failure with ⟨hrest, hfailure⟩ | ⟨p, more, e, hrest, he, hfailure⟩
    · rw [hfailure]
      exact .inl ⟨hrest, rfl⟩
    · rw [hfailure]
      exact .inr ⟨p, more, e, hrest, he, rfl⟩
  case ran =>
    rw [hrun]
    exact hran rfl
  case kept =>
    intro p hp
    rw [hrun]
    refine (hran rfl).openFile_eq fun q hq => ?_
    exact (List.pairwise_append.mp hapart).2.2 q hq p hp
  case check_files =>
    rw [hcheck]
    exact files_normalizeAll_check settings fs (done ++ rest)
  case check_changed =>
    rw [hrun, hcheck, hstops.outcome_eq, hstops'.outcome_eq, ← hsplit]
    rw [map_mapError, map_mapError, mapM_map, mapM_map]
    simp only [changed_check fs settings]

/-- Three files, of which the second is no UTF-8. -/
def threeFiles : FileSystem where
  entries := [⟨"a.json", [], .file (namedContent "--x")⟩, ⟨"b.json", [], .file [0xFF]⟩,
    ⟨"c.json", [], .file (namedContent "--x")⟩]
  workingDirectory := []
  distinct := by decide
  named := by decide
  nested := by decide

theorem oneName_defaultPattern : Pattern.OneName Settings.defaultPattern where
  ne_nil := by decide
  ne_here := by decide
  ne_up := by decide
  short := by decide
  separator_not_mem := by decide
  bracket_not_mem := by decide
  stars_apart := by decide

/-- Three files, of which the second has a given content. -/
def filesAround (second : Bytes) : FileSystem where
  entries := [⟨"a.json", [], .file (namedContent "--x")⟩, ⟨"b.json", [], .file second⟩,
    ⟨"c.json", [], .file (namedContent "--x")⟩]
  workingDirectory := []
  distinct := threeFiles.distinct
  named := by
    have hnames : ∀ name ∈ [("a.json" : Text), "b.json", "c.json"], isName name = true := by decide
    simpa using hnames
  nested := by simp

theorem search_filesAround (second : Bytes) :
    (filesAround second).search "." Settings.default.pattern =
      .ok [.ofText "a.json", .ofText "b.json", .ofText "c.json"] := by
  have hlookUp : (filesAround second).lookUp (Path.ofText ".").toText = .ok (some .directory) := rfl
  have hcomponent : Pattern.component Settings.defaultPattern =
      .wildcard [.many, .literal '.', .literal 'j', .literal 's', .literal 'o', .literal 'n'] := by
    decide +kernel
  have hselect : (filesAround second).select false [Pattern.component Settings.defaultPattern]
      (.ofText ".") = .ok [.ofText "a.json", .ofText "b.json", .ofText "c.json"] := by
    rw [FileSystem.select_one, hcomponent]
    rfl
  have hsorted : FileSystem.sorted [.ofText "a.json", .ofText "b.json", .ofText "c.json"] =
      [.ofText "a.json", .ofText "b.json", .ofText "c.json"] := by
    rw [FileSystem.sorted, List.mergeSort_of_pairwise (by decide)]
    rfl
  show (filesAround second).search "." (.scalar (.str Settings.defaultPattern)) = _
  rw [FileSystem.search_of_directory oneName_defaultPattern hlookUp, FileSystem.selectFiles, hselect]
  exact congrArg Except.ok hsorted

theorem search_threeFiles : threeFiles.search "." Settings.default.pattern =
    .ok [.ofText "a.json", .ofText "b.json", .ofText "c.json"] :=
  search_filesAround [0xFF]

theorem ok_of_threeFiles (e : FixtureError) :
    (normalize threeFiles .default false (.ofText "a.json")).2 ≠ .error e := by
  have hopen : threeFiles.openFile (Path.ofText "a.json").toText =
      .ok ([("a.json" : Text)], namedContent "--x") := FileSystem.openFile_eq_ok_iff.mpr ⟨rfl, rfl⟩
  obtain ⟨-, hrun⟩ := normalize_of_normal hopen textOf_namedContent Document.normalize_named
    (encode?_normal Document.normalize_named)
  rw [hrun]
  nofun

theorem error_of_threeFiles :
    (normalize threeFiles .default false (.ofText "b.json")).2 =
      .error (.encoding ⟨0xFF, 0, 1, .startByte⟩) := by
  have hopen : threeFiles.openFile (Path.ofText "b.json").toText =
      .ok ([("b.json" : Text)], [0xFF]) := FileSystem.openFile_eq_ok_iff.mpr ⟨rfl, rfl⟩
  exact (normalize_eq_error_iff _ _ _ _ _).mpr (.content hopen (.encoding rfl))

/-- The first file is done; the second stops the run. -/
theorem normalizeFound_prefix_threeFiles :
    Settings.default.pattern = .scalar (.str Settings.defaultPattern) ∧
      Pattern.OneName Settings.defaultPattern ∧
      ∃ results, StopsAtFirst threeFiles .default "." [.ofText "a.json"]
        [.ofText "b.json", .ofText "c.json"] results := by
  have hpattern : Settings.default.pattern = .scalar (.str Settings.defaultPattern) := rfl
  refine ⟨hpattern, oneName_defaultPattern, ?_⟩
  rcases normalizeFound_prefix hpattern oneName_defaultPattern threeFiles "." with
    ⟨e, -, hrefused, -⟩ | ⟨-, done, rest, results, -, hstops, -⟩
  · cases hrefused.symm.trans search_threeFiles
  have hfound := Except.ok.inj (hstops.found.symm.trans search_threeFiles)
  cases done with
  | nil =>
    rw [List.nil_append] at hfound
    rcases hstops.ends with ⟨hrest, -⟩ | ⟨p, more, e, hrest, he, -⟩
    · cases hrest.symm.trans hfound
    · obtain ⟨rfl, -⟩ := List.cons.inj (hrest.symm.trans hfound)
      exact absurd he (ok_of_threeFiles e)
  | cons p done =>
    obtain ⟨rfl, htail⟩ := List.cons.inj hfound
    cases done with
    | nil =>
      obtain rfl : rest = _ := htail
      exact ⟨results, hstops⟩
    | cons q done =>
      obtain ⟨rfl, -⟩ := List.cons.inj htail
      have hsecond : (normalize threeFiles .default false (.ofText "b.json")).2 ∈
          results.map .ok := by
        rw [← hstops.outcomes]
        exact List.mem_map_of_mem (List.mem_cons_of_mem _ List.mem_cons_self)
      obtain ⟨result, -, hresult⟩ := List.mem_map.mp hsecond
      cases hresult.trans error_of_threeFiles

/-- A directory with one file, which has a normal form. -/
def staleDirectory : FileSystem where
  entries := [⟨"d", [], .directory⟩, ⟨"f.json", [("d" : Text)], .file (namedContent "--x")⟩]
  workingDirectory := []
  distinct := by decide
  named := by
    have hnames : ∀ name ∈ [("d" : Text), "f.json"], isName name = true := by decide
    simpa using hnames
  nested := by
    have hd : nodeAt [⟨("d" : Text), [], .directory⟩,
        ⟨("f.json" : Text), [("d" : Text)], .file (namedContent "--x")⟩] [("d" : Text)] =
          some .directory := rfl
    simpa using hd

/-- The file could be normalized, but the path to its directory is too long for a run over it. -/
theorem normalizeFound_detour :
    (Text.splitOn Path.separator FileSystem.detour).foldlM staleDirectory.step
        staleDirectory.workingDirectory = .ok [("d" : Text)] ∧
      (∃ result, (normalize staleDirectory .default false (.ofText "d/f.json")).2 = .ok result) ∧
      ∀ check, normalizeFound staleDirectory .default check FileSystem.detour =
        (staleDirectory,
          .error (.search (.access (.refused .nameTooLong FileSystem.detour)))) := by
  have hopen : staleDirectory.openFile (Path.ofText "d/f.json").toText =
      .ok ([("f.json" : Text), "d"], namedContent "--x") :=
    FileSystem.openFile_eq_ok_iff.mpr ⟨rfl, rfl⟩
  obtain ⟨-, hrun⟩ := normalize_of_normal hopen textOf_namedContent Document.normalize_named
    (encode?_normal Document.normalize_named)
  refine ⟨by decide +kernel, ⟨_, congrArg Prod.snd hrun⟩, fun check => ?_⟩
  have hsearch := FileSystem.search_detour oneName_defaultPattern staleDirectory
  have hpattern : Settings.default.pattern = .scalar (.str Settings.defaultPattern) := rfl
  rw [normalizeFound, hpattern, hsearch]

end FluentFixtures.Fixture
