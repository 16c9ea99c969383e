import FluentFixtures.Config.Value
import FluentFixtures.Rules.Table

/-!
# Settings of a run

Everything one run needs: the pruning table, whether blank lines are kept, the
indent of documents, and the pattern of fixture names. A pattern is whatever
value the file gives; it is looked at when files are searched.
-/

namespace FluentFixtures

structure Settings where
  rules : RuleTable
  keepBlankLines : Bool
  indent : Int
  pattern : Config.Value

namespace Settings

def defaultIndent : Int := 4

def defaultPattern : Text := "*.json"

def default : Settings :=
  { rules := .default
    keepBlankLines := false
    indent := defaultIndent
    pattern := .scalar (.str defaultPattern) }

end Settings

end FluentFixtures
