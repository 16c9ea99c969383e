import FluentFixtures.Command.Run
import FluentFixtures.Command.Standard
import FluentFixtures.Proofs.Command.Console
import FluentFixtures.Proofs.Command.Messages
import FluentFixtures.Proofs.Fixture.Schedule

/-!
# Normalizing from the command line

A command line that normalizes a directory does to the files what a run over the
directory does, and tells of it: a message for each fixture that was written, or
would change, up to the first that fails. Messages that fit are lines:
`run_normalize`. The loop that prints as it goes prints what a run over the same
fixtures comes to: `runFixtures_eq`.
-/

namespace FluentFixtures.Command

open Files
open Fixture (FixtureError FixtureResult Progress normalize normalizeAll normalizeFound)

variable {packages : Packages} {fs : FileSystem} {settings : Settings} {check : Bool}
  {t directory output : Text} {message : Message} {messages : List Message}
  {result : FixtureResult} {results : List FixtureResult} {path : Path} {done rest paths : List Path}

/-! ## Messages on fixtures -/

def staleOf (results : List FixtureResult) : List FixtureResult :=
  results.filter fun result => result.changed

/-- The messages on fixtures that are done: each was written, or is told if it would change. -/
def doneMessages (check : Bool) (results : List FixtureResult) : List Message :=
  if check then (staleOf results).map fun result => .stale result.path.name
  else results.map fun result => .saved result.path.name

def countMessage (stale files : Nat) : Message :=
  if 0 < stale then .failedCheck stale files else .passedCheck files

theorem legible_countMessage (stale files : Nat) : (countMessage stale files).Legible := by
  unfold countMessage
  split
  · exact Message.legible_failedCheck stale files
  · exact Message.legible_passedCheck files

theorem legible_of_resultMessage? (hname : IsOrdinary result.path.name)
    (h : resultMessage? result = some message) : message.Legible := by
  unfold resultMessage? at h
  split at h
  · cases h
    exact Message.legible_saved hname
  · split at h
    · cases h
      exact Message.legible_stale hname
    · cases h

theorem filterMap_resultMessage? (hwritten : ∀ result ∈ results, result.written = !check) :
    results.filterMap resultMessage? = doneMessages check results := by
  induction results with
  | nil => cases check <;> rfl
  | cons result results ih =>
    obtain ⟨hresult, hrest⟩ := List.forall_mem_cons.mp hwritten
    rw [List.filterMap_cons, ih hrest, resultMessage?, hresult]
    cases check with
    | false => rfl
    | true => cases hchanged : result.changed <;> simp [doneMessages, staleOf, hchanged]

theorem legible_doneMessages (hnames : ∀ result ∈ results, IsOrdinary result.path.name)
    (hmessage : message ∈ doneMessages check results) : message.Legible := by
  unfold doneMessages at hmessage
  split at hmessage
  · obtain ⟨result, hresult, rfl⟩ := List.mem_map.mp hmessage
    exact Message.legible_stale (hnames result (List.mem_of_mem_filter hresult))
  · obtain ⟨result, hresult, rfl⟩ := List.mem_map.mp hmessage
    exact Message.legible_saved (hnames result hresult)

/-! ## The loop -/

/-- The report on a fixture that fails. -/
def failureReport (packages : Packages) (fs : FileSystem) (path : Path) : FixtureError → Report
  | .document (.read (.malformed fault place)) =>
    let error := Json.ReadError.malformed fault place
    lastly (packages.console.say (.malformed path.name error.message)) 1 fs
  | e => { output := [], ending := .fault (.fixture e), files := fs }

/-- The report at the end of a run over so many fixtures, some of which were found to be stale. -/
def closing (packages : Packages) (check : Bool) (files stale : Nat) (progress : Progress) : Report :=
  match progress.failure with
  | none => endReport packages check stale files progress.files
  | some (path, e) => failureReport packages progress.files path e

def isStale (result : FixtureResult) : Bool := !result.written && result.changed

theorem Report.after_after (first second : Text) (report : Report) :
    (report.after second).after first = report.after (first ++ second) := by
  simp [Report.after]

theorem runFixtures_of_error {fs' : FileSystem} {e : FixtureError}
    (h : normalize fs settings check path = (fs', .error e)) (files stale : Nat) (paths : List Path) :
    runFixtures packages settings check files fs stale (path :: paths) =
      failureReport packages fs' path e := by
  rw [runFixtures, h]
  unfold failureReport
  split <;> simp_all

theorem runFixtures_of_ok {fs' : FileSystem} (hconsole : packages.console.Lawful)
    (hname : IsOrdinary path.name) (h : normalize fs settings check path = (fs', .ok result))
    (files stale : Nat) (paths : List Path) :
    ∃ output, packages.console.Prints (resultMessage? result).toList output ∧
      runFixtures packages settings check files fs stale (path :: paths) =
        (runFixtures packages settings check files fs' (stale + (isStale result).toNat) paths).after
          output := by
  have hpath : result.path = path := (Fixture.result_of_ok (congrArg Prod.snd h)).1
  rw [runFixtures, h]
  simp only
  cases hmessage : resultMessage? result with
  | none =>
    have hcount : isStale result = false := by
      unfold resultMessage? at hmessage
      split at hmessage <;> simp_all [isStale]
    refine ⟨[], .nil, ?_⟩
    rw [hcount]
    rfl
  | some message =>
    rw [← hpath] at hname
    obtain ⟨output, hshows⟩ := hconsole.shows_of_legible (legible_of_resultMessage? hname hmessage)
    have hcount : (if result.written then stale else stale + 1) =
        stale + (isStale result).toNat := by
      unfold resultMessage? at hmessage
      split at hmessage <;> simp_all [isStale]
    have hprints := Console.Prints.nil.concat hshows
    refine ⟨output, hprints, ?_⟩
    simp only [hshows.printed, hcount]

/-- The loop prints a message on each fixture that is done, if there is something to tell, and ends
as a run over the fixtures ends. -/
theorem runFixtures_eq (hconsole : packages.console.Lawful) (settings : Settings) (check : Bool)
    (files : Nat) (hnames : ∀ path ∈ paths, IsOrdinary path.name) (fs : FileSystem) (stale : Nat) :
    ∃ output, packages.console.Prints
        ((normalizeAll settings check fs paths).results.filterMap resultMessage?) output ∧
      runFixtures packages settings check files fs stale paths =
        (closing packages check files
          (stale + (normalizeAll settings check fs paths).results.countP isStale)
          (normalizeAll settings check fs paths)).after output := by
  induction paths generalizing fs stale with
  | nil => exact ⟨[], .nil, rfl⟩
  | cons path paths ih =>
    obtain ⟨hname, hnames⟩ := List.forall_mem_cons.mp hnames
    rcases hrun : normalize fs settings check path with ⟨fs', e | result⟩
    · have hall : normalizeAll settings check fs (path :: paths) = ⟨fs', [], some (path, e)⟩ := by
        rw [normalizeAll, hrun]
      rw [hall]
      exact ⟨[], .nil, runFixtures_of_error hrun files stale paths⟩
    · have hall : normalizeAll settings check fs (path :: paths) =
          { normalizeAll settings check fs' paths with
            results := result :: (normalizeAll settings check fs' paths).results } := by
        rw [normalizeAll, hrun]
      obtain ⟨first, hfirst, hstep⟩ := runFixtures_of_ok hconsole hname hrun files stale paths
      obtain ⟨more, hmore, hrest⟩ := ih hnames fs' (stale + (isStale result).toNat)
      refine ⟨first ++ more, ?_, ?_⟩
      · rw [hall]
        have hprints := hfirst.append hmore
        cases hmessage : resultMessage? result <;> simpa [hmessage] using hprints
      · have hcount : stale + (isStale result).toNat +
              (normalizeAll settings check fs' paths).results.countP isStale =
            stale + (result :: (normalizeAll settings check fs' paths).results).countP isStale := by
          cases hstale : isStale result <;> simp [hstale]
          omega
        rw [hall, hstep, hrest, Report.after_after, hcount]
        rfl

/-! ## How a run ends -/

/-- The messages of a run that is done with all fixtures before the rest, and how it ends: at the
end, at a document that is malformed, or at a fixture that fails otherwise. -/
inductive Ends (fs : FileSystem) (settings : Settings) (check : Bool) (directory : Text)
    (results : List FixtureResult) : List Path → List Message → Ending → Prop where
  | written (hcheck : check = false)
    (hrun : (normalizeFound fs settings check directory).2 = .ok results) :
    Ends fs settings check directory results [] (doneMessages check results) (.exit 0)
  | checked (hcheck : check = true)
    (hrun : (normalizeFound fs settings check directory).2 = .ok results) :
    Ends fs settings check directory results []
      (doneMessages check results ++ [countMessage (staleOf results).length results.length])
      (.exit (if 0 < (staleOf results).length then 1 else 0))
  | malformed {p : Path} {more : List Path} {fault : Json.SyntaxFault} {place : Json.Place}
    (hfails : (normalize fs settings check p).2 =
      .error (.document (.read (.malformed fault place))))
    (hrun : (normalizeFound fs settings check directory).2 =
      .error (.fixture (.document (.read (.malformed fault place))))) :
    Ends fs settings check directory results (p :: more)
      (doneMessages check results ++
        [.malformed p.name (Json.ReadError.malformed fault place).message]) (.exit 1)
  | broken {p : Path} {more : List Path} {e : FixtureError}
    (hfails : (normalize fs settings check p).2 = .error e)
    (hother : ∀ fault place, e ≠ .document (.read (.malformed fault place)))
    (hrun : (normalizeFound fs settings check directory).2 = .error (.fixture e)) :
    Ends fs settings check directory results (p :: more) (doneMessages check results)
      (.fault (.fixture e))

/-- Whether a report tells of a run over the fixtures that are found: the results of those that are
done, in order, and how it ends with the rest. The files are as a run over the directory leaves
them. -/
structure Tells (packages : Packages) (fs : FileSystem) (settings : Settings) (check : Bool)
    (directory : Text) (report : Report) (done rest : List Path) (results : List FixtureResult)
    (messages : List Message) : Prop where
  found : fs.search directory settings.pattern = .ok (done ++ rest)
  ascending : (done ++ rest).Pairwise fun p q => Text.compare p.name q.name = .lt
  outcomes : done.map (fun p => (normalize fs settings check p).2) = results.map .ok
  paths : results.map FixtureResult.path = done
  written : ∀ result ∈ results, result.written = !check
  ends : Ends fs settings check directory results rest messages report.ending
  prints : packages.console.Prints messages report.output
  /-- Messages that fit are lines. -/
  lines : (∀ m ∈ messages, packages.console.Fits m.plain) →
    report.output = messages.flatMap fun m => m.plain ++ ("\n" : Text)
  files : report.files = (normalizeFound fs settings check directory).1
  check_files : check = true → report.files = fs

theorem closing_written {progress : Progress} (h : progress.failure = none) (files stale : Nat) :
    closing packages false files stale progress = ⟨[], .exit 0, progress.files⟩ := by
  rw [closing, h]
  rfl

theorem closing_checked {progress : Progress} (h : progress.failure = none) (files stale : Nat) :
    closing packages true files stale progress =
      lastly (packages.console.say (countMessage stale files)) (if 0 < stale then 1 else 0)
        progress.files := by
  rw [closing, h]
  simp only [endReport, if_true, countMessage]
  split <;> rfl

theorem closing_failed {progress : Progress} {e : FixtureError} (h : progress.failure = some (path, e))
    (files stale : Nat) : closing packages check files stale progress =
      failureReport packages progress.files path e := by
  rw [closing, h]

theorem failureReport_other {e : FixtureError}
    (hother : ∀ fault place, e ≠ .document (.read (.malformed fault place))) :
    failureReport packages fs path e = ⟨[], .fault (.fixture e), fs⟩ := by
  unfold failureReport
  split
  · exact absurd rfl (hother _ _)
  · rfl

theorem after_of_silent (ending : Ending) (fs : FileSystem) :
    (Report.mk [] ending fs).after output = ⟨output, ending, fs⟩ := by
  rw [Report.after, List.append_nil]

theorem exists_after (hconsole : packages.console.Lawful)
    (hprints : packages.console.Prints messages output) (hmessage : message.Legible) (code : Nat)
    (fs : FileSystem) :
    ∃ all, (lastly (packages.console.say message) code fs).after output = ⟨all, .exit code, fs⟩ ∧
      packages.console.Prints (messages ++ [message]) all := by
  obtain ⟨more, hshows⟩ := hconsole.shows_of_legible hmessage
  refine ⟨output ++ more, ?_, hprints.concat hshows⟩
  rw [hshows.lastly_eq]
  rfl

/-- What a report tells of a run that is done with all fixtures before the rest. -/
structure Concludes (packages : Packages) (fs : FileSystem) (settings : Settings) (check : Bool)
    (directory : Text) (results : List FixtureResult) (rest : List Path) (report : Report)
    (messages : List Message) (files : FileSystem) : Prop where
  ends : Ends fs settings check directory results rest messages report.ending
  prints : packages.console.Prints messages report.output
  legible : ∀ m ∈ messages, m.Legible
  files : report.files = files

section Conclusion

variable {progress : Progress} (hconsole : packages.console.Lawful)
  (hnames : ∀ path ∈ done ++ rest, IsOrdinary path.name)
  (hpaths : progress.results.map FixtureResult.path = done)
  (hprints : packages.console.Prints (doneMessages check progress.results) output)
  (hrun : (normalizeFound fs settings check directory).2 = progress.outcome.mapError .fixture)

include hconsole hnames hpaths hprints hrun

theorem exists_concludes {stale : Nat}
    (hstale : check = true → stale = (staleOf progress.results).length)
    (hstops : progress.Stops (fun path => (normalize fs settings check path).2) done rest) :
    ∃ messages, Concludes packages fs settings check directory progress.results rest
      ((closing packages check (done ++ rest).length stale progress).after output) messages
      progress.files := by
  have hlegible : ∀ m ∈ doneMessages check progress.results, m.Legible := by
    refine fun m => legible_doneMessages fun result hresult => hnames _ (List.mem_append_left rest ?_)
    rw [← hpaths]
    exact List.mem_map_of_mem hresult
  have hmore {last : Message} (hlast : last.Legible) :
      ∀ m ∈ doneMessages check progress.results ++ [last], m.Legible :=
    List.forall_mem_append.mpr ⟨hlegible, List.forall_mem_singleton.mpr hlast⟩
  rw [Progress.outcome] at hrun
  rcases hstops.failure with ⟨rfl, hfailure⟩ | ⟨path, more, e, rfl, hfails, hfailure⟩
  · rw [hfailure] at hrun
    cases check with
    | false =>
      rw [closing_written hfailure, after_of_silent]
      exact ⟨_, .written rfl hrun, hprints, hlegible, rfl⟩
    | true =>
      have hlength : (done ++ []).length = progress.results.length := by
        rw [List.append_nil, ← hpaths, List.length_map]
      have hcount := legible_countMessage (staleOf progress.results).length progress.results.length
      rw [closing_checked hfailure, hstale rfl, hlength]
      obtain ⟨all, hreport, hall⟩ := exists_after hconsole hprints hcount _ progress.files
      rw [hreport]
      exact ⟨_, .checked rfl hrun, hall, hmore hcount, rfl⟩
  · rw [hfailure] at hrun
    rw [closing_failed hfailure]
    by_cases hmalformed : ∃ fault place, e = .document (.read (.malformed fault place))
    · obtain ⟨fault, place, rfl⟩ := hmalformed
      have hname := hnames path (List.mem_append_right done List.mem_cons_self)
      have hfault := Message.legible_malformed hname fault place
      obtain ⟨all, hreport, hall⟩ := exists_after hconsole hprints hfault 1 progress.files
      rw [failureReport, hreport]
      exact ⟨_, .malformed hfails hrun, hall, hmore hfault, rfl⟩
    · have hother (fault : Json.SyntaxFault) (place : Json.Place) :
          e ≠ .document (.read (.malformed fault place)) :=
        fun he => hmalformed ⟨fault, place, he⟩
      rw [failureReport_other hother, after_of_silent]
      exact ⟨_, .broken hfails hother hrun, hprints, hlegible, rfl⟩

end Conclusion

theorem countP_isStale (hwritten : ∀ result ∈ results, result.written = false) :
    results.countP isStale = (staleOf results).length := by
  rw [staleOf, List.countP_eq_length_filter]
  refine congrArg List.length (List.filter_congr fun result hresult => ?_)
  rw [isStale, hwritten result hresult]
  rfl

/-- What a run over the fixtures of a directory tells. -/
theorem tells_runFixtures (hconsole : packages.console.Lawful) (check : Bool)
    (hfound : fs.search directory settings.pattern = .ok paths)
    (hascending : paths.Pairwise fun p q => Text.compare p.name q.name = .lt)
    (hapart : paths.Pairwise (Fixture.Apart fs)) (hnames : ∀ p ∈ paths, IsOrdinary p.name) :
    ∃ done rest results messages, Tells packages fs settings check directory
      (runFixtures packages settings check paths.length fs 0 paths) done rest results messages := by
  have hrun := Fixture.normalizeFound_eq check hfound
  obtain ⟨done, rest, rfl, hstops, -⟩ := Fixture.normalizeAll_stops settings check hapart
  obtain ⟨output, hprints, hloop⟩ := runFixtures_eq hconsole settings check
    (done ++ rest).length hnames fs 0
  have hcheck (h : check = true) : (normalizeAll settings check fs (done ++ rest)).files = fs := by
    rw [h]
    exact Fixture.files_normalizeAll_check settings fs _
  generalize normalizeAll settings check fs (done ++ rest) = progress at *
  obtain ⟨hpaths, hwritten⟩ := Fixture.results_of_outcomes hstops.results
  rw [filterMap_resultMessage? hwritten] at hprints
  have hstale (h : check = true) :
      0 + progress.results.countP isStale = (staleOf progress.results).length := by
    subst h
    rw [Nat.zero_add, countP_isStale hwritten]
  obtain ⟨messages, hconcludes⟩ := exists_concludes hconsole hnames hpaths hprints
    (congrArg Prod.snd hrun) hstale hstops
  rw [hloop]
  refine ⟨done, rest, progress.results, messages, ?_⟩
  constructor
  case found => exact hfound
  case ascending => exact hascending
  case outcomes => exact hstops.results
  case paths => exact hpaths
  case written => exact hwritten
  case ends => exact hconcludes.ends
  case prints => exact hconcludes.prints
  case lines => exact hconcludes.prints.lines fun m hm => (hconcludes.legible m hm).ordinary
  case files => rw [hconcludes.files, hrun]
  case check_files => exact fun h => hconcludes.files.trans (hcheck h)

/-! ## Command lines -/

/-- The settings of a run, if its configuration file gives any. An empty path is none. -/
def configured (reader : Config.Reader) (fs : FileSystem) (config : Option Text) :
    Except Config.FileError Settings :=
  match config.filter fun path => !path.isEmpty with
  | none => .ok .default
  | some path => Config.ofFile reader fs path

theorem withSettings_of_configured {config : Option Text}
    (h : configured packages.reader fs config = .ok settings) (run : Settings → Report) :
    withSettings packages fs config run = run settings := by
  rw [configured] at h
  rw [withSettings]
  cases hkept : config.filter fun path => !path.isEmpty with
  | none =>
    rw [hkept] at h
    cases h
    rfl
  | some path =>
    rw [hkept] at h
    simp only at h
    simp only [h]

/-- The settings with blank lines kept if the command line says so. -/
def forced (settings : Settings) (keepBlankLines : Bool) : Settings :=
  { settings with keepBlankLines := settings.keepBlankLines || keepBlankLines }

/-- Whether a report tells that there are no fixtures. -/
structure FindsNothing (packages : Packages) (fs : FileSystem) (settings : Settings) (check : Bool)
    (t directory : Text) (report : Report) : Prop where
  found : fs.search directory settings.pattern = .ok []
  run : normalizeFound fs settings check directory = (fs, .ok [])
  files : report.files = fs
  told : (∀ c ∈ t ++ directory, c.isSurrogate = false) → report.ending = .exit 0 ∧
    packages.console.Shows (.nothing (packages.console.escape t) directory) report.output
  line : IsOrdinary t → IsOrdinary directory →
    packages.console.Fits (Message.nothing t directory).plain →
    report.output = (Message.nothing t directory).plain ++ ("\n" : Text)

section Search

variable (check : Bool) (keepBlankLines : Bool)

theorem runNormalize_of_error {e : SearchError}
    (h : fs.search directory settings.pattern = .error e) :
    runNormalize packages fs directory check keepBlankLines settings =
      ⟨[], .fault (.search e), fs⟩ := by
  simp only [runNormalize, h]

theorem runNormalize_of_nothing (hpattern : settings.pattern = .scalar (.str t))
    (h : fs.search directory settings.pattern = .ok []) :
    runNormalize packages fs directory check keepBlankLines settings =
      lastly (packages.console.say (.nothing (packages.console.escape t) directory)) 0 fs := by
  have ht : patternText settings.pattern = t := by rw [hpattern, patternText]
  simp only [runNormalize, h, ht]

theorem runNormalize_of_found (h : fs.search directory settings.pattern = .ok paths)
    (hpaths : paths ≠ []) : runNormalize packages fs directory check keepBlankLines settings =
      runFixtures packages (forced settings keepBlankLines) check paths.length fs 0 paths := by
  cases paths with
  | nil => exact absurd rfl hpaths
  | cons p paths =>
    simp only [runNormalize, h]
    rfl

end Search

theorem shows_nothing (hconsole : packages.console.Lawful) (ht : Pattern.OneName t)
    (directory : Text) (hbytes : ∀ c ∈ t ++ directory, c.isSurrogate = false) :
    ∃ output, packages.console.Shows (.nothing (packages.console.escape t) directory) output := by
  have hbracket : 0x5B ∉ packages.console.escape t := by
    intro hmem
    rcases hconsole.escape_adds t _ hmem with hmem | hmem
    · exact ht.bracket_not_mem hmem
    · exact absurd hmem (by decide)
  refine hconsole.shows _ (Message.sound_nothing hbracket directory) ?_
  have hescape : ∀ c ∈ packages.console.escape t, c.isSurrogate = false := by
    intro c hc
    rcases hconsole.escape_adds t c hc with hc | rfl
    · exact hbytes c (List.mem_append_left directory hc)
    · rfl
  have hdirectory : ∀ c ∈ directory, c.isSurrogate = false := fun c hc =>
    hbytes c (List.mem_append_right t hc)
  have hclear {t : Text} (h : t.IsClear) : ∀ c ∈ t, c.isSurrogate = false := fun c hc => (h c hc).2.2
  rw [Message.Encodable, Message.plain_nothing]
  simp only [List.forall_mem_append]
  exact ⟨⟨hclear (by decide), hescape⟩, hclear (by decide), hdirectory, hclear (by decide)⟩

theorem findsNothing_runNormalize (hconsole : packages.console.Lawful) (check keepBlankLines : Bool)
    (hpattern : settings.pattern = .scalar (.str t)) (ht : Pattern.OneName t)
    (h : fs.search directory settings.pattern = .ok []) :
    FindsNothing packages fs (forced settings keepBlankLines) check t directory
      (runNormalize packages fs directory check keepBlankLines settings) := by
  have hshown := shows_nothing hconsole ht directory
  rw [runNormalize_of_nothing check keepBlankLines hpattern h]
  constructor
  case found => exact h
  case run =>
    have hforced : fs.search directory (forced settings keepBlankLines).pattern = .ok [] := h
    rw [normalizeFound, hforced]
    rfl
  case files =>
    unfold lastly
    split <;> rfl
  case told =>
    intro hbytes
    obtain ⟨output, hshows⟩ := hshown hbytes
    rw [hshows.lastly_eq]
    exact ⟨rfl, hshows⟩
  case line =>
    intro hordinary hdirectory hfits
    have hescape : packages.console.escape t = t :=
      hconsole.escape_unmarked t ht.bracket_not_mem hordinary.backslash_not_mem
    have hbytes : ∀ c ∈ t ++ directory, c.isSurrogate = false := List.forall_mem_append.mpr
      ⟨fun c hc => (hordinary.isClear c hc).2.2, fun c hc => (hdirectory.isClear c hc).2.2⟩
    obtain ⟨output, hshows⟩ := hshown hbytes
    rw [hshows.lastly_eq]
    rw [hescape] at hshows
    exact hshows.line (Message.ordinary_nothing hdirectory hordinary) hfits

/-- A command line that normalizes a directory leaves the files as a run over the directory leaves
them, for which blank lines are kept if the command line or the configuration file says so. It tells
that there are no fixtures, or tells of each up to the first that fails. If the system refuses a path
that the search needs, it does nothing. -/
theorem run_normalize {args : List Text} {config : Option Text} {keepBlankLines : Bool}
    (hconsole : packages.console.Lawful)
    (hargs : packages.commandLine fs args = .ok (.normalize directory config check keepBlankLines))
    (hconfig : configured packages.reader fs config = .ok settings)
    (hpattern : settings.pattern = .scalar (.str t)) (ht : Pattern.OneName t)
    (hnames : ∀ entry ∈ fs.entries, entry.node.isFile = true → IsOrdinary entry.name) :
    (∃ e, fs.Unsearchable t directory e ∧
        fs.search directory (forced settings keepBlankLines).pattern = .error (.access e) ∧
        normalizeFound fs (forced settings keepBlankLines) check directory =
          (fs, .error (.search (.access e))) ∧
        run packages fs args = ⟨[], .fault (.search (.access e)), fs⟩) ∨
      (∀ e, ¬ fs.Unsearchable t directory e) ∧
      (FindsNothing packages fs (forced settings keepBlankLines) check t directory
          (run packages fs args) ∨
        ∃ done rest results messages, done ++ rest ≠ [] ∧
          Tells packages fs (forced settings keepBlankLines) check directory (run packages fs args)
            done rest results messages) := by
  have hrun : run packages fs args =
      runNormalize packages fs directory check keepBlankLines settings := by
    rw [run, hargs]
    exact withSettings_of_configured hconfig _
  have hforced : (forced settings keepBlankLines).pattern = .scalar (.str t) := hpattern
  rw [hrun]
  rcases FileSystem.search_cases ht fs directory with ⟨e, he, hsearch⟩ | ⟨hsearchable, paths, hsearch⟩
  · rw [← hforced] at hsearch
    refine .inl ⟨e, he, hsearch, ?_, runNormalize_of_error check keepBlankLines hsearch⟩
    rw [normalizeFound, hsearch]
  refine .inr ⟨hsearchable, ?_⟩
  obtain ⟨around, hascending, hfiles⟩ := FileSystem.fileIn_of_search ht hsearch
  rw [← hforced] at hsearch
  by_cases hpaths : paths = []
  · subst hpaths
    exact .inl (findsNothing_runNormalize hconsole check keepBlankLines hpattern ht hsearch)
  · have hapart : paths.Pairwise (Fixture.Apart fs) := hascending.imp_of_mem fun hp hq hlt =>
      Fixture.apart_of_fileIn (hfiles _ hp).1 (hfiles _ hq).1 hlt
    have hordinary : ∀ p ∈ paths, IsOrdinary p.name := by
      intro p hp
      obtain ⟨entry, hentry, hfile, hname⟩ := (hfiles p hp).1.exists_entry
      rw [hname]
      exact hnames entry hentry hfile
    obtain ⟨done, rest, results, messages, htells⟩ :=
      tells_runFixtures hconsole check hsearch hascending hapart hordinary
    obtain rfl : done ++ rest = paths := Except.ok.inj (htells.found.symm.trans hsearch)
    have hfound : fs.search directory settings.pattern = .ok (done ++ rest) := hsearch
    rw [runNormalize_of_found check keepBlankLines hfound hpaths]
    exact .inr ⟨done, rest, results, messages, hpaths, htells⟩

/-- A check of three files in the working directory tells of them. -/
theorem run_normalize_staleFiles :
    (Packages.standard 80).commandLine Fixture.staleFiles ["normalize", "--check"] =
        .ok (.normalize "." none true false) ∧
      (∀ entry ∈ Fixture.staleFiles.entries, entry.node.isFile = true → IsOrdinary entry.name) ∧
      ∃ done rest results messages, done ++ rest ≠ [] ∧
        Tells (.standard 80) Fixture.staleFiles (forced .default false) true "."
          (run (.standard 80) Fixture.staleFiles ["normalize", "--check"]) done rest results
          messages := by
  have hargs : (Packages.standard 80).commandLine Fixture.staleFiles ["normalize", "--check"] =
      .ok (.normalize "." none true false) := rfl
  have hconfig : configured (Packages.standard 80).reader Fixture.staleFiles none =
      .ok .default := rfl
  have hpattern : Settings.default.pattern = .scalar (.str Settings.defaultPattern) := rfl
  have hnames : ∀ entry ∈ Fixture.staleFiles.entries,
      entry.node.isFile = true → IsOrdinary entry.name := by
    have hordinary : ∀ name ∈ [("a.json" : Text), "b.json", "c.json"], IsOrdinary name := by decide
    have hname : ∀ entry ∈ Fixture.staleFiles.entries, IsOrdinary entry.name := by
      simpa [Fixture.staleFiles, Fixture.filesAround] using hordinary
    exact fun entry hentry _ => hname entry hentry
  refine ⟨hargs, hnames, ?_⟩
  have hfound : Fixture.staleFiles.search "." (forced .default false).pattern =
      .ok Fixture.stalePaths := Fixture.search_filesAround _
  rcases run_normalize (Console.lawful_plain 80) hargs hconfig hpattern
    Fixture.oneName_defaultPattern hnames with ⟨e, -, hrefused, -⟩ | ⟨-, hnothing | htells⟩
  · cases hrefused.symm.trans hfound
  · cases hnothing.found.symm.trans hfound
  · exact htells

/-! ## Where there is more than lines -/

theorem commandLine_normalize {place : Location} (hswitch : isSwitch directory = false)
    (hend : directory ≠ endOfSwitches) (hplace : fs.resolve directory = .ok place)
    (hdirectory : fs.node? place = some .directory) (width : Nat) :
    (Packages.standard width).commandLine fs ["normalize", directory] =
      .ok (.normalize directory none false false) := by
  have hprogram : readProgram ["normalize", directory] = .ok ⟨[], ["normalize", directory]⟩ := rfl
  have hwords : readWords [.config, .check, .keepBlankLines, .help] false [directory] =
      .ok ⟨[], [directory]⟩ := by
    simp only [readWords, if_neg hend, hswitch, Bool.false_eq_true, if_false]
    rfl
  have hrequest : Request.ofArguments ["normalize", directory] =
      .ok (.normalize directory none false false) := by
    show readNormalize [directory] = _
    rw [readNormalize, hwords]
    rfl
  show Request.answer fs ["normalize", directory] = _
  simp only [Request.answer, hrequest, Request.invocation, hplace, hdirectory, if_true]

def farDirectory (turns : Nat) : Text :=
  (List.replicate turns ("d/../" : Text)).flatten ++ ("d" : Text)

def bareDirectory : FileSystem where
  entries := [⟨"d", [], .directory⟩]
  workingDirectory := []
  distinct := List.nodup_singleton _
  named := by decide
  nested := by decide

theorem run_operand {place : Location} (hswitch : isSwitch directory = false)
    (hend : directory ≠ endOfSwitches) (hplace : fs.resolve directory = .ok place)
    (hdirectory : fs.node? place = some .directory) (width : Nat) :
    run (.standard width) fs ["normalize", directory] =
      runNormalize (.standard width) fs directory false false .default := by
  rw [run, commandLine_normalize hswitch hend hplace hdirectory width]
  rfl

/-- A file with a name, and with a document that has a normal form. -/
def fileNamed (name : Text) (hname : isName name = true) : FileSystem where
  entries := [⟨name, [], .file (Fixture.namedContent "--x")⟩]
  workingDirectory := []
  distinct := List.nodup_singleton _
  named := List.forall_mem_singleton.mpr hname
  nested := List.forall_mem_singleton.mpr rfl

theorem run_fileNamed {name : Text} (hname : isName name = true)
    (hfound : (fileNamed name hname).search "." Settings.default.pattern = .ok [.ofText name])
    (hplace : (fileNamed name hname).resolve (Path.ofText name).toText = .ok [name])
    (hpath : (Path.ofText name).name = name) : ∃ files,
      run (.standard 80) (fileNamed name hname) ["normalize", "."] =
        lastly ((Packages.standard 80).console.say (.saved name)) 0 files := by
  have hnode : (fileNamed name hname).node? [name] = some (.file (Fixture.namedContent "--x")) := by
    simp [FileSystem.node?, fileNamed, nodeAt, Entry.place]
  obtain ⟨-, hwritten⟩ := Fixture.normalize_of_normal
    (FileSystem.openFile_eq_ok_iff.mpr ⟨hplace, hnode⟩) Fixture.textOf_namedContent
    Document.normalize_named (Fixture.encode?_normal Document.normalize_named)
  have hnone : [Path.ofText name] ≠ [] := List.cons_ne_nil _ _
  have hroot : (fileNamed name hname).resolve "." = .ok [] := rfl
  rw [run_operand (by decide) (by decide) hroot rfl, runNormalize_of_found false false hfound hnone]
  have hsettings : forced .default false = .default := rfl
  have hsaved (changed : Bool) :
      resultMessage? ⟨.ofText name, changed, true⟩ = some (.saved name) := by
    simp only [resultMessage?, if_true, hpath]
  simp only [hsettings, runFixtures, hwritten, hsaved]
  cases (Packages.standard 80).console.say (.saved name) with
  | error raised => exact ⟨_, rfl⟩
  | ok output => exact ⟨_, after_of_silent (.exit 0) _⟩

/-- A name that is no UTF-8. -/
def oddName : Text := (0xDCFF : CodePoint) :: (".json" : Text)

/-- A name with which the message that it is saved is wider than a line. -/
def longName : Text := List.replicate 60 (0x61 : CodePoint) ++ (".json" : Text)

theorem isName_oddName : isName oddName = true := by decide +kernel

theorem isName_longName : isName longName = true := by decide +kernel

/-- Messages with long paths or names go over two lines. The system may refuse the path of a file
but not that of its directory, and a name that is no UTF-8 cannot be put out: either breaks the run
off. -/
theorem messages_broken :
    (bareDirectory.search (farDirectory 12) Settings.default.pattern = .ok [] ∧
      (run (.standard 80) bareDirectory ["normalize", farDirectory 12]).output.count 0x0A = 2) ∧
    (∃ files output,
      run (.standard 80) (fileNamed longName isName_longName) ["normalize", "."] =
        ⟨output, .exit 0, files⟩ ∧ output.count 0x0A = 2) ∧
    (Fixture.staleDirectory.resolve (farDirectory 818) = .ok [("d" : Text)] ∧
      ∃ e, run (.standard 80) Fixture.staleDirectory ["normalize", farDirectory 818] =
        ⟨[], .fault (.search e), Fixture.staleDirectory⟩) ∧
    ∃ files raised, run (.standard 80) (fileNamed oddName isName_oddName) ["normalize", "."] =
      ⟨[], .fault (.package raised), files⟩ := by
  refine ⟨⟨by decide +kernel, by decide +kernel⟩, ?long, ?far, ?odd⟩
  case long =>
    obtain ⟨files, hrun⟩ := run_fileNamed isName_longName (by decide +kernel) (by decide +kernel)
      (by decide +kernel)
    have hbroken : ((Packages.standard 80).console.say (.saved longName)).map (List.count 0x0A) =
        .ok 2 := by decide +kernel
    obtain ⟨output, houtput, hcount⟩ := map_eq_ok_iff.mp hbroken
    rw [hrun, houtput]
    exact ⟨files, output, rfl, hcount⟩
  case far =>
    have hplace : Fixture.staleDirectory.resolve (farDirectory 818) = .ok [("d" : Text)] := by
      decide +kernel
    have hsearch : (Fixture.staleDirectory.search (farDirectory 818)
        Settings.default.pattern).isOk = false := by decide +kernel
    refine ⟨hplace, ?_⟩
    rw [run_operand (by decide +kernel) (by decide +kernel) hplace rfl]
    cases herror : Fixture.staleDirectory.search (farDirectory 818) Settings.default.pattern with
    | ok paths =>
      rw [herror] at hsearch
      cases hsearch
    | error e => exact ⟨e, runNormalize_of_error false false herror⟩
  case odd =>
    obtain ⟨files, hrun⟩ := run_fileNamed isName_oddName (by decide +kernel) (by decide +kernel)
      (by decide +kernel)
    have hbroken : ((Packages.standard 80).console.say (.saved oddName)).isOk = false := by
      decide +kernel
    rw [hrun]
    cases hsay : (Packages.standard 80).console.say (.saved oddName) with
    | ok output =>
      rw [hsay] at hbroken
      cases hbroken
    | error raised => exact ⟨files, raised, rfl⟩

end FluentFixtures.Command
