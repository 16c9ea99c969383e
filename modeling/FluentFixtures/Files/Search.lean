import FluentFixtures.Files.Pattern
import FluentFixtures.Files.System

/-!
# Finding files

`search` lists the regular files that a pattern stands for below a directory,
each once and in the order of their paths. Where there is no directory, nothing
is found.
-/

namespace FluentFixtures.Files

inductive SearchError where
  | pattern (error : PatternError)
  | access (error : AccessError)
  deriving DecidableEq, Repr

def SearchError.message : SearchError → Text
  | pattern error => error.message
  | access error => error.message

namespace FileSystem

/-- The directory at a path and all directories below it. -/
def directories (fs : FileSystem) (path : Path) : Except AccessError (List Path) :=
  (fs.place? path.toText).map fun found =>
    match found with
    | none => []
    | some place =>
      path :: (fs.below place).filterMap fun (names, node) =>
        if node.isDirectory then some { path with names := path.names ++ names } else none

def matching (fs : FileSystem) (directoriesOnly : Bool) (pieces : List Piece) (path : Path) :
    Except AccessError (List Path) :=
  (fs.place? path.toText).map fun found =>
    match found with
    | none => []
    | some place =>
      (fs.children place).filterMap fun e =>
        if (e.node.isDirectory || !directoriesOnly) && Piece.matchesName pieces e.name then
          some (path.child e.name)
        else none

/-- The path with a name, if there is something. -/
def existing (fs : FileSystem) (directoriesOnly : Bool) (path : Path) :
    Except AccessError (List Path) :=
  (fs.lookUp path.toText).map fun found =>
    match found with
    | some node => if node.isDirectory || !directoriesOnly then [path] else []
    | none => []

def select (fs : FileSystem) (directoriesOnly : Bool) :
    List Component → Path → Except AccessError (List Path)
  | [], path => .ok [path]
  | component :: rest, path => do
    let only := directoriesOnly || !rest.isEmpty
    let next ← match component with
      | .name name => fs.existing only (path.child name)
      | .wildcard pieces => fs.matching only pieces path
      | .anyDepth => fs.directories path
    let found ← next.mapM (fs.select directoriesOnly rest)
    .ok found.flatten

def isFile (fs : FileSystem) (path : Path) : Except AccessError Bool :=
  (fs.lookUp path.toText).map fun found => found.any Node.isFile

def sorted (paths : List Path) : List Path := (paths.mergeSort Path.le).eraseReps

def search (fs : FileSystem) (directory : Text) (pattern : Config.Value) :
    Except SearchError (List Path) := do
  let pattern ← (Pattern.ofValue pattern).mapError .pattern
  let base := Path.ofText directory
  match ← (fs.lookUp base.toText).mapError .access with
  | some .directory =>
    let found ← (fs.select pattern.directoriesOnly pattern.components base).mapError .access
    let files ← (found.filterM fs.isFile).mapError .access
    .ok (sorted files)
  | _ => .ok []

end FileSystem

end FluentFixtures.Files
