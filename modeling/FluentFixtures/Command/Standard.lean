import FluentFixtures.Command.Console
import FluentFixtures.Command.Help
import FluentFixtures.Yaml.Value

/-!
# Packages to run the program with

The packages that this library has of its own: the switches and help pages of the
program, a console without colours, and a reader for a part of YAML.
-/

namespace FluentFixtures.Command

open Files

def Request.invocation (fs : FileSystem) : Request → Except Raised Invocation
  | version => .ok (.answered versionLine)
  | help topic => .ok (.answered topic.page)
  | rules config => .ok (.rules config)
  | normalize directory config check keepBlankLines =>
    let refused := Invocation.refused (UsageError.noDirectory directory).message
    match fs.resolve directory with
    | .ok place =>
      .ok (if fs.node? place = some .directory then
        .normalize directory config check keepBlankLines else refused)
    | .error .nullCharacter => .error ⟨.value, AccessError.nullCharacter.message⟩
    | .error _ => .ok refused

def Request.answer (fs : FileSystem) (args : List Text) : Except Raised Invocation :=
  match Request.ofArguments args with
  | .ok request => request.invocation fs
  | .error e => .ok (.refused e.message)

/-- The packages with a console of a width. -/
def Packages.standard (width : Nat) : Packages where
  commandLine := Request.answer
  reader := Yaml.reader
  console := .plain width
  unordered := "keys without an order"

end FluentFixtures.Command
