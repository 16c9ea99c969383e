import FluentFixtures.Command.Packages
import FluentFixtures.Fixture
import FluentFixtures.Rules.Shown

/-!
# Running a command

A command line runs on a file system and leaves a report: what is printed, how
the run ends, and the files as they are then. A run ends with an exit code, or
breaks off at a fault: one that no message tells, or that a package raises.
-/

namespace FluentFixtures.Command

open Files
open Fixture (FixtureError FixtureResult)

inductive Fault where
  | package (raised : Raised)
  | config (error : Config.FileError)
  | search (error : SearchError)
  | fixture (error : FixtureError)
  | rules (error : RuleTable.ShownError)

/-- What is said of a fault, keys without an order apart. -/
def Fault.message? : Fault → Option Text
  | package raised => some raised.message
  | config error => error.message?
  | search error => some error.message
  | fixture error => some error.message
  | rules error => error.message?

inductive Ending where
  | exit (code : Nat)
  | refused (complaint : Text)
  | fault (fault : Fault)

/-- Broken runs end with 1, refused command lines with 2. -/
def Ending.code : Ending → Nat
  | exit code => code
  | refused _ => 2
  | fault _ => 1

structure Report where
  output : Text
  ending : Ending
  files : FileSystem

def Report.after (output : Text) (report : Report) : Report :=
  { report with output := output ++ report.output }

def lastly (printed : Except Raised Text) (code : Nat) (files : FileSystem) : Report :=
  match printed with
  | .ok output => { output, ending := .exit code, files }
  | .error raised => { output := [], ending := .fault (.package raised), files }

section Runs

variable (packages : Packages)

/-! ## Settings -/

/-- The classes of errors that are told of a configuration file. -/
def toldClasses : List ErrorClass := [.system, .value, .type, .yaml]

def isTold (error : Config.FileError) : Bool := toldClasses.any error.errorClass.isA

def configReport (fs : FileSystem) (path : Text) (error : Config.FileError) : Report :=
  if isTold error then
    lastly (packages.console.say (.failedLoad path (error.message?.getD packages.unordered))) 1 fs
  else { output := [], ending := .fault (.config error), files := fs }

/-- The settings of a run, or the report that there are none. An empty path is none. -/
def withSettings (fs : FileSystem) (config : Option Text) (run : Settings → Report) : Report :=
  match config.filter fun path => !path.isEmpty with
  | none => run .default
  | some path =>
    match Config.ofFile packages.reader fs path with
    | .ok settings => run settings
    | .error e => configReport packages fs path e

/-! ## Fixtures -/

/-- The message on a fixture that was written or would change. -/
def resultMessage? (result : FixtureResult) : Option Message :=
  if result.written then some (.saved result.path.name)
  else if result.changed then some (.stale result.path.name)
  else none

/-- The report at the end of a run over so many fixtures. -/
def endReport (check : Bool) (stale files : Nat) (fs : FileSystem) : Report :=
  if check then
    if 0 < stale then lastly (packages.console.say (.failedCheck stale files)) 1 fs
    else lastly (packages.console.say (.passedCheck files)) 0 fs
  else { output := [], ending := .exit 0, files := fs }

/-- Normalizes the fixtures one after another, and prints as it goes. Of the faults of fixtures only
that one is no document is told. -/
def runFixtures (settings : Settings) (check : Bool) (files : Nat) (fs : FileSystem) (stale : Nat) :
    List Path → Report
  | [] => endReport packages check stale files fs
  | path :: rest =>
    match Fixture.normalize fs settings check path with
    | (fs, .error (.document (.read (.malformed fault place)))) =>
      let error := Json.ReadError.malformed fault place
      lastly (packages.console.say (.malformed path.name error.message)) 1 fs
    | (fs, .error e) => { output := [], ending := .fault (.fixture e), files := fs }
    | (fs, .ok result) =>
      match resultMessage? result with
      | none => runFixtures settings check files fs stale rest
      | some message =>
        match packages.console.say message with
        | .ok output =>
          let stale := if result.written then stale else stale + 1
          (runFixtures settings check files fs stale rest).after output
        | .error raised => { output := [], ending := .fault (.package raised), files := fs }

/-- What a setting that is a pattern looks like. -/
def patternText : Config.Value → Text
  | .scalar (.str t) => t
  | _ => []

def runNormalize (fs : FileSystem) (directory : Text) (check keepBlankLines : Bool)
    (settings : Settings) : Report :=
  let settings :=
    { settings with keepBlankLines := settings.keepBlankLines || keepBlankLines }
  match fs.search directory settings.pattern with
  | .error e => { output := [], ending := .fault (.search e), files := fs }
  | .ok [] =>
    let pattern := packages.console.escape (patternText settings.pattern)
    lastly (packages.console.say (.nothing pattern directory)) 0 fs
  | .ok paths => runFixtures packages settings check paths.length fs 0 paths

/-! ## Commands -/

def runRules (fs : FileSystem) (settings : Settings) : Report :=
  match settings.rules.shown with
  | .ok table => lastly (packages.console.printJson table) 0 fs
  | .error e => { output := [], ending := .fault (.rules e), files := fs }

def Invocation.run (fs : FileSystem) : Invocation → Report
  | normalize directory config check keepBlankLines =>
    withSettings packages fs config (runNormalize packages fs directory check keepBlankLines)
  | rules config => withSettings packages fs config (runRules packages fs)
  | answered output => { output, ending := .exit 0, files := fs }
  | refused complaint => { output := [], ending := .refused complaint, files := fs }

def run (fs : FileSystem) (args : List Text) : Report :=
  match packages.commandLine fs args with
  | .ok invocation => invocation.run packages fs
  | .error raised => { output := [], ending := .fault (.package raised), files := fs }

end Runs

end FluentFixtures.Command
