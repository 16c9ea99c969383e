import FluentFixtures.Document
import FluentFixtures.Files.Change
import FluentFixtures.Files.Search
import FluentFixtures.Text.Newline

/-!
# Normalizing fixture files

A fixture is one file. Normalizing it reads the file, finds the normal form of
its document and writes that in its place; with `check` nothing is written, and
the result says only whether the text would change. All fixtures of a directory
are normalized in order up to the first that fails.
-/

namespace FluentFixtures.Fixture

open Files

inductive FixtureError where
  | access (error : AccessError)
  | encoding (fault : Utf8.Fault)
  | document (error : DocumentError)
  /-- The normal form holds half of a surrogate pair. -/
  | surrogate
  deriving DecidableEq, Repr

def FixtureError.message : FixtureError → Text
  | access error => error.message
  | encoding fault => fault.message
  | document error => error.message
  | surrogate => "surrogates not allowed"

/-- What became of a fixture. -/
structure FixtureResult where
  path : Path
  changed : Bool
  written : Bool
  deriving DecidableEq, Repr

/-- The text of a file, with a line feed for every line end. -/
def textOf (content : Bytes) : Except Utf8.Fault Text := (Utf8.decode content).map Newline.unify

def normalForm (settings : Settings) (content : Bytes) : Except FixtureError (Text × Bool) := do
  let text ← (textOf content).mapError .encoding
  let normal ← (Document.normalize settings text).mapError .document
  .ok (normal, normal ≠ text)

/-- Normalizes the fixture at a path: the files as they are then, and what became of the fixture.
The bytes are found before the file is opened to be written. -/
def normalize (fs : FileSystem) (settings : Settings) (check : Bool) (path : Path) :
    FileSystem × Except FixtureError FixtureResult :=
  match fs.openFile path.toText with
  | .error e => (fs, .error (.access e))
  | .ok (place, content) =>
    match normalForm settings content with
    | .error e => (fs, .error e)
    | .ok (normal, changed) =>
      if check then (fs, .ok ⟨path, changed, false⟩)
      else
        match Utf8.encode? normal with
        | none => (fs, .error .surrogate)
        | some bytes => (fs.setContent place bytes, .ok ⟨path, changed, true⟩)

/-- How far a run has come: the files as they are now, the results in order, and the fixture that
ended the run with the reason. -/
structure Progress where
  files : FileSystem
  results : List FixtureResult
  failure : Option (Path × FixtureError)

/-- Normalizes the fixtures one after another, up to the first that fails. -/
def normalizeAll (settings : Settings) (check : Bool) (fs : FileSystem) : List Path → Progress
  | [] => ⟨fs, [], none⟩
  | path :: rest =>
    match normalize fs settings check path with
    | (fs, .error e) => ⟨fs, [], some (path, e)⟩
    | (fs, .ok result) =>
      let progress := normalizeAll settings check fs rest
      { progress with results := result :: progress.results }

/-- Why the fixtures of a directory are not all normalized. -/
inductive DirectoryError where
  | search (error : SearchError)
  | fixture (error : FixtureError)
  deriving DecidableEq, Repr

def DirectoryError.message : DirectoryError → Text
  | search error => error.message
  | fixture error => error.message

/-- Normalizes the fixtures of a directory. Those before one that fails stay normalized. -/
def normalizeFound (fs : FileSystem) (settings : Settings) (check : Bool) (directory : Text) :
    FileSystem × Except DirectoryError (List FixtureResult) :=
  match fs.search directory settings.pattern with
  | .error e => (fs, .error (.search e))
  | .ok paths =>
    let progress := normalizeAll settings check fs paths
    (progress.files,
      match progress.failure with
      | some (_, e) => .error (.fixture e)
      | none => .ok progress.results)

end FluentFixtures.Fixture
