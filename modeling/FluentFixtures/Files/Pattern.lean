import FluentFixtures.Config.Value
import FluentFixtures.Files.Path
import FluentFixtures.Files.Wildcard
import FluentFixtures.Number.Written
import FluentFixtures.Text.Quoted

/-!
# Patterns of paths

A pattern is a relative path whose names may have wildcards; the name `**` stands
for any number of directories. A setting may hold any value as its pattern, and
`ofValue` says why it is none.
-/

namespace FluentFixtures.Files

/-- A name of a pattern. -/
inductive Component where
  | name (name : Text)
  | wildcard (pieces : List Piece)
  | anyDepth
  deriving DecidableEq, Repr

/-- A pattern; one that ends in a slash stands for directories alone. -/
structure Pattern where
  components : List Component
  directoriesOnly : Bool
  deriving DecidableEq, Repr

inductive PatternError where
  /-- A value that says nothing. -/
  | unacceptable (spelling : Text)
  /-- A value without a first item. -/
  | noItems (kind : ValueKind)
  /-- Bytes, which hold no text. -/
  | noText
  /-- A mapping without the key zero, which would be its first item. -/
  | noZero
  /-- A value that begins with a slash, or has one, and is no text. -/
  | noStrip (kind : ValueKind)
  | noSplit (kind : ValueKind)
  /-- Any other list or mapping. -/
  | noName (kind : ValueKind)
  | absolute
  /-- Two stars that are not all of a name. -/
  | adjacentStars
  /-- A path without names. -/
  | noNames
  /-- A path without names that ends in a slash. -/
  | noDirectory
  deriving DecidableEq, Repr

def PatternError.message : PatternError → Text
  | unacceptable spelling => ("Unacceptable pattern: " : Text) ++ spelling
  | noItems kind => ("'" : Text) ++ kind.name ++ ("' object is not subscriptable" : Text)
  | noText => "a bytes-like object is required, not 'str'"
  | noZero => "0"
  | noStrip kind => ("'" : Text) ++ kind.name ++ ("' object has no attribute 'lstrip'" : Text)
  | noSplit kind => ("'" : Text) ++ kind.name ++ ("' object has no attribute 'split'" : Text)
  | noName kind => ("intern() argument must be str, not " : Text) ++ kind.name
  | absolute => "Non-relative patterns are unsupported"
  | adjacentStars => "Invalid pattern: '**' can only be an entire path component"
  | noNames => "tuple index out of range"
  | noDirectory => "'_TerminatingSelector' object has no attribute 'select_from'"

namespace Component

def star : CodePoint := '*'

def hasAdjacentStars : Text → Bool
  | a :: b :: rest => (a = star && b = star) || hasAdjacentStars (b :: rest)
  | _ => false

def isWildcard (c : CodePoint) : Bool := c = star || c = '?' || c = '['

def ofText (t : Text) : Except PatternError Component :=
  if t = [star, star] then .ok .anyDepth
  else if hasAdjacentStars t then .error .adjacentStars
  else if t.any isWildcard then .ok (.wildcard (Piece.ofText t))
  else .ok (.name t)

end Component

namespace Pattern

def ofText (t : Text) : Except PatternError Pattern :=
  let path := Path.ofText t
  let directoriesOnly : Bool := t.getLast? = some Path.separator
  if path.absolute then .error .absolute
  else if path.names.isEmpty then .error (if directoriesOnly then .noDirectory else .noNames)
  else
    match path.names.mapM Component.ofText with
    | .ok components => .ok { components, directoriesOnly }
    | .error e => .error e

open Config (Value)

/-- How a value that says nothing is spelled. -/
def emptySpelling : Value → Text
  | .scalar (.bool _) => "False"
  | .scalar (.int n) => Text.integer n
  | .scalar (.double d) => d.written
  | .scalar (.str t) => Quoted.quote t
  | .scalar .null => "None"
  | .bytes b => Quoted.quoteBytes b
  | .set _ => "set()"
  | .list _ => "[]"
  | .mapping _ => [0x7B, 0x7D]
  | v => v.kind.name

def slash : Key := .str [Path.separator]

def isSlash : Value → Bool
  | .scalar s => .scalar s = slash
  | _ => false

/-- The fault of the items of a value of some kind that should be a pattern. -/
def itemsError (kind : ValueKind) (items : List Value) : PatternError :=
  if items.head?.any isSlash then .noStrip kind
  else if items.any isSlash then .noSplit kind
  else .noName kind

/-- The fault of a mapping that should be a pattern. -/
def mappingError (entries : List (Key × Value)) : PatternError :=
  match KeyMap.get? (.int 0) entries with
  | none => .noZero
  | some first =>
    if isSlash first then .noStrip .mapping
    else if (KeyMap.get? slash entries).isSome then .noSplit .mapping
    else .noName .mapping

def ofValue (v : Value) : Except PatternError Pattern :=
  if v.isEmpty then .error (.unacceptable (emptySpelling v))
  else
    match v with
    | .scalar (.str t) => ofText t
    | .bytes _ => .error .noText
    | .list items => .error (itemsError .list items)
    | .pair a b => .error (itemsError .pair [a, b])
    | .mapping entries => .error (mappingError entries)
    | .cut kind => .error (.noName kind)
    | v => .error (.noItems v.kind)

end Pattern

end FluentFixtures.Files
