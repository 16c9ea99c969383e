import FluentFixtures.ErrorClass
import FluentFixtures.Files.Entry
import FluentFixtures.Text.Quoted

/-!
# File systems

A file system is a finite tree of directories and regular files, seen from a
working directory. Its entries are listed: no two are at one place, and each one
is in a directory. There are no links, so that a file has one place and names
that differ lead from a directory to different files; and whatever is there may
be read and written. `resolve` follows the names of a path and says why it leads
nowhere.
-/

namespace FluentFixtures.Files

structure FileSystem where
  entries : List Entry
  workingDirectory : Location
  distinct : (entries.map Entry.place).Nodup
  named : ∀ e ∈ entries, isName e.name = true
  nested : ∀ e ∈ entries, nodeAt entries e.around = some .directory

inductive AccessReason where
  | notFound
  | notDirectory
  | isDirectory
  | nameTooLong
  deriving DecidableEq, Repr

/-- Why a file cannot be used: the system refuses the path, or the path holds a null. -/
inductive AccessError where
  | refused (reason : AccessReason) (path : Text)
  | nullCharacter
  deriving DecidableEq, Repr

def AccessReason.number : AccessReason → Nat
  | notFound => 2
  | notDirectory => 20
  | isDirectory => 21
  | nameTooLong => 36

def AccessReason.text : AccessReason → Text
  | notFound => "No such file or directory"
  | notDirectory => "Not a directory"
  | isDirectory => "Is a directory"
  | nameTooLong => "File name too long"

def AccessError.message : AccessError → Text
  | refused reason path =>
    ("[Errno " : Text) ++ Text.decimal reason.number ++ ("] " : Text) ++ reason.text ++
      (": " : Text) ++ Quoted.quote path
  | nullCharacter => "embedded null byte"

def AccessError.errorClass : AccessError → ErrorClass
  | refused _ _ => .system
  | nullCharacter => .value

namespace FileSystem

def empty : FileSystem where
  entries := []
  workingDirectory := []
  distinct := List.nodup_nil
  named _ h := absurd h List.not_mem_nil
  nested _ h := absurd h List.not_mem_nil

def node? (fs : FileSystem) (place : Location) : Option Node := nodeAt fs.entries place

def children (fs : FileSystem) (place : Location) : List Entry :=
  fs.entries.filter fun e => e.around = place

/-- The names on the way from one place down to another. -/
def namesBetween (outer inner : Location) : List Text :=
  (inner.take (inner.length - outer.length)).reverse

/-- What is below a place, with the names on the way. -/
def below (fs : FileSystem) (place : Location) : List (List Text × Node) :=
  (fs.entries.filter fun e => place.isSuffixOf e.around).map fun e =>
    (namesBetween place e.place, e.node)

/-! ## Paths -/

def step (fs : FileSystem) (place : Location) (name : Text) : Except AccessReason Location :=
  match fs.node? place with
  | none => .error .notFound
  | some (.file _) => .error .notDirectory
  | some .directory =>
    if Path.saysNothing name then .ok place
    else if name = Path.up then .ok place.tail
    else if byteSize name > nameLimit then .error .nameTooLong
    else if (fs.node? (name :: place)).isSome then .ok (name :: place)
    else .error .notFound

/-- The longest path, in bytes of UTF-8. -/
def pathLimit : Nat := 4095

def locate (fs : FileSystem) (path : Text) : Except AccessReason Location :=
  if path.isEmpty then .error .notFound
  else if byteSize path > pathLimit then .error .nameTooLong
  else
    (Text.splitOn Path.separator path).foldlM fs.step
      (if Path.isAbsolute path then [] else fs.workingDirectory)

def resolve (fs : FileSystem) (path : Text) : Except AccessError Location :=
  if path.contains 0 then .error .nullCharacter
  else (fs.locate path).mapError (.refused · path)

def openFile (fs : FileSystem) (path : Text) : Except AccessError (Location × Bytes) :=
  match fs.resolve path with
  | .error e => .error e
  | .ok place =>
    match fs.node? place with
    | some (.file content) => .ok (place, content)
    | some .directory => .error (.refused .isDirectory path)
    | none => .error (.refused .notFound path)

/-- The place that a path leads to, if it leads to one; a path that is too long is a fault. -/
def place? (fs : FileSystem) (path : Text) : Except AccessError (Option Location) :=
  match fs.resolve path with
  | .ok place => .ok (some place)
  | .error (.refused .nameTooLong path) => .error (.refused .nameTooLong path)
  | .error _ => .ok none

def lookUp (fs : FileSystem) (path : Text) : Except AccessError (Option Node) :=
  (fs.place? path).map fun place => place.bind fs.node?

/-- The files below the working directory: their paths, in order, and contents. -/
def files (fs : FileSystem) : List (Text × Bytes) :=
  let found := (fs.below fs.workingDirectory).filterMap fun (names, node) =>
    match node with
    | .file content => some (Text.joinWith [Path.separator] names, content)
    | .directory => none
  found.mergeSort fun a b => (Text.compare a.1 b.1).isLE

end FileSystem

end FluentFixtures.Files
