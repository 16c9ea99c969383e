import FluentFixtures.Config.Basic
import FluentFixtures.Json.Reader
import FluentFixtures.Json.Writer
import FluentFixtures.Passes

/-!
# Normalizing a document

A document is read, its tree goes through the three passes, and the result is
written with the indent of the settings. Each of the three steps can fail.
-/

namespace FluentFixtures

inductive DocumentError where
  | read (error : Json.ReadError)
  | split (error : SplitError)
  | write (error : Json.WriteError)
  deriving DecidableEq, Repr

def DocumentError.message : DocumentError → Text
  | read error => error.message
  | split error => error.message
  | write error => error.message

namespace Document

def read (text : Text) : Except DocumentError Tree := (Json.read text).mapError .read

def write (settings : Settings) (t : Tree) : Except DocumentError Text :=
  (Json.write settings.indent t).mapError .write

/-- The passes with the rules and the flag of the settings. -/
def normalizeTree (settings : Settings) (t : Tree) : Except DocumentError Tree :=
  (t.normalize settings.rules settings.keepBlankLines).mapError .split

/-- The normal form of a document. -/
def normalize (settings : Settings) (text : Text) : Except DocumentError Text := do
  let t ← read text
  let normal ← normalizeTree settings t
  write settings normal

end Document

end FluentFixtures
