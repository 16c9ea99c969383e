import FluentFixtures.Command.Standard
import FluentFixtures.Proofs.Command.Console
import FluentFixtures.Proofs.Command.Messages
import FluentFixtures.Proofs.Config.Load
import Mathlib.Data.List.Nodup

/-!
# Runs without settings

A command that finds no settings in its configuration file changes no file. The
fault is told in a message and the exit code is 1, but for the faults of `Untold`
files, which break the run off without a word: `run_without_settings`. What the
packages do does not matter, as long as the console is lawful.
-/

namespace FluentFixtures.Config

open Command (toldClasses)

/-- Whether the fault of a file is of those that no message tells: the reader raises an error of
another class than those that are, its positional types say something but are no mapping, or its
indent is infinite. -/
inductive Untold (reader : Reader) (path : Text) (bytes : Bytes) : Prop where
  | reader {raised : Raised} (h : reader path bytes = .error raised)
    (hclass : toldClasses.any raised.errorClass.isA = false)
  | positional {entries : List (Key × Value)} {v : Value}
    (h : reader path bytes = .ok (.mapping entries))
    (hkeys : ∀ entry ∈ entries, isSettingKey entry.1 = true)
    (hunambiguous : CanRead entries unambiguousKey keySetOf)
    (hexempt : CanRead entries exemptKey keySetOf)
    (hsetting : setting? entries positionalKey = some v) (hfull : v.isEmpty = false)
    (hother : ∀ entries, v ≠ .mapping entries)
  | indent {entries : List (Key × Value)} {negative : Bool}
    (h : reader path bytes = .ok (.mapping entries))
    (hkeys : ∀ entry ∈ entries, isSettingKey entry.1 = true)
    (hunambiguous : CanRead entries unambiguousKey keySetOf)
    (hexempt : CanRead entries exemptKey keySetOf)
    (hpositional : CanRead entries positionalKey positionalOf)
    (hsetting : setting? entries indentKey = some (.scalar (.double (.infinite negative))))

end FluentFixtures.Config

namespace FluentFixtures.Command

open Files
open Config (FileError LoadError Untold)

variable {packages : Packages} {reader : Config.Reader} {fs : FileSystem} {path : Text}
  {bytes : Bytes} {e : FileError} {args : List Text} {invocation : Invocation}

/-! ## Classes of faults -/

theorem isTold_load_eq_false_iff {e : LoadError} : isTold (.load e) = false ↔
    (∃ kind, e = .noEntries kind) ∨ e = .indent .infinite := by
  cases e with
  | indent e =>
    cases e <;> simp [isTold, toldClasses, FileError.errorClass, LoadError.errorClass,
      ErrorClass.isA, ErrorClass.parent?]
  | _ =>
    simp [isTold, toldClasses, FileError.errorClass, LoadError.errorClass, ErrorClass.isA,
      ErrorClass.parent?]

theorem isTold_access (error : AccessError) : isTold (.access error) = true := by
  cases error <;> rfl

/-- The faults of settings that no message tells are those of positional types and of the indent. -/
theorem untold_of_settingsOf {v : Config.Value} {e : LoadError} (hread : reader path bytes = .ok v)
    (h : Config.settingsOf v = .error e) (htold : isTold (.load e) = false) :
    Untold reader path bytes := by
  have hkind := isTold_load_eq_false_iff.mp htold
  rcases Config.settingsOf_error_cases h with ⟨kind, rfl⟩ | ⟨keys, rfl⟩ | ⟨entries, rfl, hkeys, h⟩
  · simp at hkind
  · rcases Config.unknownKeysError_cases keys with h | ⟨_, h⟩ | ⟨_, h⟩ <;> simp [h] at hkind
  · have hset {v : Config.Value} (hset : Config.keySetOf v = .error e) : False := by
      obtain ⟨kind, rfl | rfl⟩ := Config.keySetOf_error hset <;> simp at hkind
    rcases Config.settingsOfEntries_eq_error_iff.mp h with ⟨v, -, hv⟩ | ⟨hunambiguous, h⟩
    · exact (hset hv).elim
    rcases h with ⟨v, -, hv⟩ | ⟨hexempt, h⟩
    · exact (hset hv).elim
    rcases h with ⟨v, hsetting, hv⟩ | ⟨hpositional, v, hsetting, hv⟩
    · rcases Config.positionalOf_error hv with ⟨kind, rfl | rfl⟩ | ⟨kind, rfl, hfull, hother⟩
      · simp at hkind
      · simp at hkind
      · exact .positional hread hkeys hunambiguous hexempt hsetting hfull hother
    · obtain ⟨cause, hcause, rfl⟩ := mapError_eq_error_iff.mp hv
      rcases hkind with ⟨kind, hkind⟩ | hkind
      · cases hkind
      · obtain rfl : cause = .infinite := by simpa using hkind
        obtain ⟨negative, rfl⟩ := Config.indentOf_eq_infinite_iff.mp hcause
        exact .indent hread hkeys hunambiguous hexempt hpositional hsetting

theorem ofBytes_of_mapping {entries : List (Key × Config.Value)} {cause : LoadError}
    (hread : reader path bytes = .ok (.mapping entries))
    (hkeys : ∀ entry ∈ entries, Config.isSettingKey entry.1 = true)
    (hcause : Config.settingsOfEntries entries = .error cause) :
    Config.ofBytes reader path bytes = .error (.load cause) := by
  rw [Config.ofBytes, hread]
  show (Config.settingsOf (.mapping entries)).mapError FileError.load = _
  rw [Config.settingsOf_mapping hkeys, hcause]
  rfl

theorem isTold_of_untold (h : Config.ofBytes reader path bytes = .error e)
    (huntold : Untold reader path bytes) : isTold e = false := by
  -- A file has one fault, so it is enough to find the fault of each untold file.
  have hfault {e' : FileError} (h' : Config.ofBytes reader path bytes = .error e') : e' = e :=
    Except.error.inj (h'.symm.trans h)
  cases huntold with
  | @reader raised hread hclass =>
    have hraised : Config.ofBytes reader path bytes = .error (.reader raised) := by
      rw [Config.ofBytes, hread]
      rfl
    rw [← hfault hraised]
    exact hclass
  | @positional entries v hread hkeys hunambiguous hexempt hsetting hfull hother =>
    have hcause : Config.settingsOfEntries entries = .error (.noEntries v.kind) :=
      Config.settingsOfEntries_eq_error_iff.mpr (.inr ⟨hunambiguous, .inr ⟨hexempt,
        .inl ⟨v, hsetting, Config.positionalOf_of_other hfull hother⟩⟩⟩)
    rw [← hfault (ofBytes_of_mapping hread hkeys hcause)]
    rfl
  | @indent entries negative hread hkeys hunambiguous hexempt hpositional hsetting =>
    have hcause : Config.settingsOfEntries entries = .error (.indent .infinite) :=
      Config.settingsOfEntries_eq_error_iff.mpr
        (.inr ⟨hunambiguous, .inr ⟨hexempt, .inr ⟨hpositional, _, hsetting, rfl⟩⟩⟩)
    rw [← hfault (ofBytes_of_mapping hread hkeys hcause)]
    rfl

/-- The fault of a file is told unless the file is of those that no message tells. -/
theorem isTold_eq_false_iff (h : Config.ofBytes reader path bytes = .error e) :
    isTold e = false ↔ Untold reader path bytes := by
  refine ⟨fun htold => ?_, isTold_of_untold h⟩
  rcases bind_eq_error_iff.mp h with hread | ⟨v, hread, hload⟩
  · obtain ⟨raised, hraised, rfl⟩ := mapError_eq_error_iff.mp hread
    exact .reader hraised htold
  · obtain ⟨cause, hcause, rfl⟩ := mapError_eq_error_iff.mp hload
    exact untold_of_settingsOf (mapError_eq_ok_iff.mp hread) hcause htold

def UntoldAt (reader : Config.Reader) (fs : FileSystem) (path : Text) : Prop :=
  ∃ place bytes, fs.openFile path = .ok (place, bytes) ∧ Untold reader path bytes

theorem isTold_eq_false_iff_untoldAt (h : Config.ofFile reader fs path = .error e) :
    isTold e = false ↔ UntoldAt reader fs path := by
  unfold Config.ofFile at h
  cases hopen : fs.openFile path with
  | error denied =>
    rw [hopen] at h
    cases h
    simp [isTold_access, UntoldAt, hopen]
  | ok found =>
    obtain ⟨place, bytes⟩ := found
    rw [hopen] at h
    rw [isTold_eq_false_iff h, UntoldAt]
    simp [hopen]

/-! ## Runs -/

inductive Invocation.Loads (path : Text) : Invocation → Prop where
  | normalize {directory : Text} {check keepBlankLines : Bool} (hpath : path ≠ []) :
    Loads path (.normalize directory (some path) check keepBlankLines)
  | rules (hpath : path ≠ []) : Loads path (.rules (some path))

theorem withSettings_of_error (hpath : path ≠ [])
    (hload : Config.ofFile packages.reader fs path = .error e) (next : Settings → Report) :
    withSettings packages fs (some path) next = configReport packages fs path e := by
  have hkept : (some path).filter (fun path => !path.isEmpty) = some path := by simp [hpath]
  rw [withSettings, hkept]
  simp only [hload]

theorem run_of_loads (hargs : packages.commandLine fs args = .ok invocation)
    (hinvocation : invocation.Loads path)
    (hload : Config.ofFile packages.reader fs path = .error e) :
    run packages fs args = configReport packages fs path e := by
  rw [run, hargs]
  cases hinvocation with
  | normalize hpath => exact withSettings_of_error hpath hload _
  | rules hpath => exact withSettings_of_error hpath hload _

def failedLoad : Text := "Failed to load config"

/-- What is said of a fault of a file. -/
def faultText (packages : Packages) (e : FileError) : Text := e.message?.getD packages.unordered

/-- How a run ends without settings. -/
structure EndsWithout (packages : Packages) (fs : FileSystem) (path : Text) (e : FileError)
    (report : Report) : Prop where
  files : report.files = fs
  prints : ¬ UntoldAt packages.reader fs path →
    report = lastly (packages.console.say (.failedLoad path (faultText packages e))) 1 fs
  /-- The fault is told, if what is said of it has bytes. -/
  told : ¬ UntoldAt packages.reader fs path →
    (Message.failedLoad path (faultText packages e)).Encodable →
    report.ending = .exit 1 ∧
      packages.console.Shows (.failedLoad path (faultText packages e)) report.output ∧
      (packages.console.HasRoom failedLoad → failedLoad <+: report.output)
  untold : UntoldAt packages.reader fs path → report.output = [] ∧ report.ending = .fault (.config e)

theorem configReport_files (packages : Packages) (fs : FileSystem) (path : Text) (e : FileError) :
    (configReport packages fs path e).files = fs := by
  unfold configReport lastly
  split
  · split <;> rfl
  · rfl

/-- A command that finds no settings changes no file. It tells the fault in a message and ends with
1, unless the fault is of those that no message tells: then it prints nothing and breaks off. -/
theorem run_without_settings (hconsole : packages.console.Lawful)
    (hargs : packages.commandLine fs args = .ok invocation) (hinvocation : invocation.Loads path)
    (hload : Config.ofFile packages.reader fs path = .error e) :
    EndsWithout packages fs path e (run packages fs args) := by
  rw [run_of_loads hargs hinvocation hload]
  have htold := isTold_eq_false_iff_untoldAt hload
  have hprinted (hnot : ¬ UntoldAt packages.reader fs path) : configReport packages fs path e =
      lastly (packages.console.say (.failedLoad path (faultText packages e))) 1 fs := by
    rw [configReport, if_pos (by simpa using mt htold.mp hnot)]
    rfl
  constructor
  case files => exact configReport_files packages fs path e
  case prints => exact hprinted
  case told =>
    intro hnot hbytes
    obtain ⟨output, hshows⟩ := hconsole.shows _ (Message.sound_failedLoad path _) hbytes
    have hreport : configReport packages fs path e = ⟨output, .exit 1, fs⟩ :=
      (hprinted hnot).trans (hshows.lastly_eq 1 fs)
    have hopening : (Message.failedLoad path (faultText packages e)).opening =
        failedLoad ++ 0x20 :: [] := rfl
    rw [hreport]
    exact ⟨rfl, hshows, hshows.start _ _ hopening (by decide) (by decide) (by decide)⟩
  case untold =>
    intro huntold
    rw [configReport, if_neg (by simp [htold.mpr huntold])]
    exact ⟨rfl, rfl⟩

/-! ## Two files -/

def configFile (content : Text) : FileSystem where
  entries := [⟨"c.yaml", [], .file (content.flatMap Utf8.encodePoint)⟩]
  workingDirectory := []
  distinct := List.nodup_singleton _
  named entry hentry := by
    obtain rfl := List.mem_singleton.mp hentry
    show isName "c.yaml" = true
    decide
  nested entry hentry := by
    obtain rfl := List.mem_singleton.mp hentry
    rfl

def listedTypes : Text := "positional_types: [a]"

def wordIndent : Text := "indent: a"

theorem ofFile_configFile {content : Text} {e : LoadError}
    (h : fault? (Config.ofBytes Yaml.reader "c.yaml" (content.flatMap Utf8.encodePoint)) =
      some (.load e)) :
    Config.ofFile Yaml.reader (configFile content) "c.yaml" = .error (.load e) := by
  have hopen : (configFile content).openFile "c.yaml" =
      .ok ([("c.yaml" : Text)], content.flatMap Utf8.encodePoint) := rfl
  rw [Config.ofFile, hopen]
  exact fault?_eq_some_iff.mp h

theorem ofFile_listedTypes : Config.ofFile Yaml.reader (configFile listedTypes) "c.yaml" =
    .error (.load (.noEntries .list)) :=
  ofFile_configFile (by decide +kernel)

theorem ofFile_wordIndent : Config.ofFile Yaml.reader (configFile wordIndent) "c.yaml" =
    .error (.load (.indent (.noNumeral "a"))) :=
  ofFile_configFile (by decide +kernel)

theorem commandLine_rules (width : Nat) (fs : FileSystem) :
    (Packages.standard width).commandLine fs ["rules", "--config", "c.yaml"] =
      .ok (.rules (some "c.yaml")) := rfl

theorem isTold_wordIndent : ¬ UntoldAt Yaml.reader (configFile wordIndent) "c.yaml" := by
  rw [← isTold_eq_false_iff_untoldAt ofFile_wordIndent]
  exact Bool.noConfusion

/-- An indent that is a word is told. -/
theorem run_without_settings_wordIndent :
    Config.ofFile Yaml.reader (configFile wordIndent) "c.yaml" =
        .error (.load (.indent (.noNumeral "a"))) ∧
      failedLoad <+: (run (.standard 80) (configFile wordIndent) ["rules", "--config", "c.yaml"]).output ∧
      (run (.standard 80) (configFile wordIndent) ["rules", "--config", "c.yaml"]).ending = .exit 1 := by
  have hload := ofFile_wordIndent
  have hends := run_without_settings (Console.lawful_plain 80) (commandLine_rules 80 _)
    (.rules (by decide)) hload
  obtain ⟨hending, -, hstart⟩ := hends.told isTold_wordIndent (by decide)
  exact ⟨hload, hstart (by decide), hending⟩

/-- Positional types that are a list are not told: neither command prints anything. -/
theorem listedTypes_untold :
    Config.ofFile Yaml.reader (configFile listedTypes) "c.yaml" = .error (.load (.noEntries .list)) ∧
      ∀ args ∈ [[("rules" : Text), "--config", "c.yaml"], ["normalize", "--config", "c.yaml"]],
        (run (.standard 80) (configFile listedTypes) args).output = [] ∧
          (run (.standard 80) (configFile listedTypes) args).ending =
            .fault (.config (.load (.noEntries .list))) := by
  have hload := ofFile_listedTypes
  have hrules : run (.standard 80) (configFile listedTypes) ["rules", "--config", "c.yaml"] =
      configReport (.standard 80) (configFile listedTypes) "c.yaml" (.load (.noEntries .list)) :=
    run_of_loads (commandLine_rules 80 _) (.rules (by decide)) hload
  have hargs : (Packages.standard 80).commandLine (configFile listedTypes)
      ["normalize", "--config", "c.yaml"] = .ok (.normalize "." (some "c.yaml") false false) := rfl
  have hnormalize : run (.standard 80) (configFile listedTypes) ["normalize", "--config", "c.yaml"] =
      configReport (.standard 80) (configFile listedTypes) "c.yaml" (.load (.noEntries .list)) :=
    run_of_loads hargs (.normalize (by decide)) hload
  refine ⟨hload, List.forall_mem_cons.mpr ⟨?_, List.forall_mem_singleton.mpr ?_⟩⟩
  · rw [hrules]
    exact ⟨rfl, rfl⟩
  · rw [hnormalize]
    exact ⟨rfl, rfl⟩

end FluentFixtures.Command
