import FluentFixtures.Text.Basic

/-!
# Paths

A path is a list of names, from the root of the file system or from the working
directory. Empty names and the name `.` say nothing and are dropped; `..` stays,
because where it leads is for the file system to say.
-/

namespace FluentFixtures.Files

/-- A path without names that say nothing. -/
structure Path where
  absolute : Bool
  names : List Text
  deriving DecidableEq, Repr

namespace Path

def separator : CodePoint := '/'

/-- The name of a directory in itself. -/
def here : Text := "."

/-- The name of the directory around a directory. -/
def up : Text := ".."

def saysNothing (name : Text) : Bool := name.isEmpty || name = here

def isAbsolute (t : Text) : Bool := t.head? = some separator

def ofText (t : Text) : Path :=
  { absolute := isAbsolute t
    names := (Text.splitOn separator t).filter fun name => !saysNothing name }

def toText (p : Path) : Text :=
  let names := Text.joinWith [separator] p.names
  if p.absolute then separator :: names
  else if p.names.isEmpty then here
  else names

def name (p : Path) : Text := p.names.getLastD []

def child (p : Path) (name : Text) : Path := { p with names := p.names ++ [name] }

/-- Comparison name by name, a proper beginning first. -/
def compareNames : List Text → List Text → Ordering
  | [], [] => .eq
  | [], _ :: _ => .lt
  | _ :: _, [] => .gt
  | a :: s, b :: t => (Text.compare a b).then (compareNames s t)

/-- The order of paths that start at one place. -/
def le (a b : Path) : Bool := (compareNames a.names b.names).isLE

end Path

end FluentFixtures.Files
