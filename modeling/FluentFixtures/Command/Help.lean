import FluentFixtures.Command.Arguments

/-!
# Help pages

What the program says about itself and its two commands.
-/

namespace FluentFixtures.Command

def programName : Text := "astnorm"

def programVersion : Text := "0.1.0"

def versionLine : Text :=
  programName ++ (", version " : Text) ++ programVersion ++ ("\n" : Text)

def Topic.lines : Topic → List Text
  | program => [
      "Usage: astnorm [OPTIONS] COMMAND [ARGS]...",
      "",
      "  astnorm — Fluent AST fixture normalizer.",
      "",
      "  Rewrites JSON-serialized Fluent ASTs into the compact, diff-friendly shape",
      "  used by parser and serializer fixtures.",
      "",
      "Options:",
      "  --version  Show the version and exit.",
      "  --help     Show this message and exit.",
      "",
      "Commands:",
      "  normalize  Normalize every JSON fixture in DIRECTORY (default: current...",
      "  rules      Print the active type-pruning table as JSON."]
  | normalize => [
      "Usage: astnorm normalize [OPTIONS] [DIRECTORY]",
      "",
      "  Normalize every JSON fixture in DIRECTORY (default: current directory).",
      "",
      "  Stops at the first file that is not valid JSON.",
      "",
      "Options:",
      "  -c, --config TEXT   YAML config file",
      "  --check             Report files that would change without writing them",
      "  --keep-blank-lines  Keep blank lines when splitting text",
      "  --help              Show this message and exit."]
  | rules => [
      "Usage: astnorm rules [OPTIONS]",
      "",
      "  Print the active type-pruning table as JSON.",
      "",
      "Options:",
      "  -c, --config TEXT  YAML config file",
      "  --help             Show this message and exit."]

def Topic.page (topic : Topic) : Text := topic.lines.flatMap (· ++ ("\n" : Text))

end FluentFixtures.Command
