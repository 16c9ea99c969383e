import FluentFixtures.Config.Load
import FluentFixtures.Files.System

/-!
# Configuration files

The bytes of a configuration file are read by a package: `Reader`. A file can be
missing, be refused by the reader, or fail to say what settings are.
-/

namespace FluentFixtures.Config

/-- What a package makes of the bytes of a file, given the path that its faults name. -/
abbrev Reader := Text → Bytes → Except Raised Value

inductive FileError where
  | access (error : Files.AccessError)
  | reader (raised : Raised)
  | load (error : LoadError)
  deriving DecidableEq, Repr

namespace FileError

/-- What is said of a fault; keys without an order are not told. -/
def message? : FileError → Option Text
  | access error => some error.message
  | reader raised => some raised.message
  | load error => error.message?

def errorClass : FileError → ErrorClass
  | access error => error.errorClass
  | reader raised => raised.errorClass
  | load error => error.errorClass

end FileError

def ofBytes (reader : Reader) (path : Text) (bytes : Bytes) : Except FileError Settings := do
  let value ← (reader path bytes).mapError .reader
  (settingsOf value).mapError .load

def ofFile (reader : Reader) (fs : Files.FileSystem) (path : Text) : Except FileError Settings :=
  match fs.openFile path with
  | .ok (_, bytes) => ofBytes reader path bytes
  | .error e => .error (.access e)

end FluentFixtures.Config
