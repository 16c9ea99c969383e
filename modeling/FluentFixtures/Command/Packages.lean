import FluentFixtures.Command.Message
import FluentFixtures.Config.File

/-!
# The packages of the program

Words of a command line are understood, configuration files read and messages
printed by packages. What the program does is the same whatever they do: they
are a parameter of a run.
-/

namespace FluentFixtures.Command

inductive Invocation where
  | normalize (directory : Text) (config : Option Text) (check keepBlankLines : Bool)
  | rules (config : Option Text)
  /-- Help is asked for, or the like, and this is the answer. -/
  | answered (output : Text)
  /-- The command line is wrong. -/
  | refused (complaint : Text)

/-- A console: `print` and `printJson` give what they put out for a marked up message and for the
text of a document. A line has a width in cells, of which `cells` says how many a text takes. -/
structure Console where
  escape : Text → Text
  print : Text → Except Raised Text
  printJson : Text → Except Raised Text
  cells : Text → Nat
  width : Nat

def Console.say (console : Console) (message : Message) : Except Raised Text :=
  console.print (message.markup console.escape)

structure Packages where
  /-- Whether a word is a directory is seen from the files. -/
  commandLine : Files.FileSystem → List Text → Except Raised Invocation
  reader : Config.Reader
  console : Console
  /-- What is said of keys without an order. It is about the first two that a sort compares, which
  depends on more than the keys. -/
  unordered : Text

end FluentFixtures.Command
