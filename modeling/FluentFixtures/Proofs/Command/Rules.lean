import FluentFixtures.Proofs.Command.Settings
import FluentFixtures.Proofs.Config.Shown
import FluentFixtures.Proofs.Yaml.Document

/-!
# Reading back what is printed of the rules

The command that prints the pruning table prints a configuration file: read back,
it gives an equal table, so that the same types are implied: `runRules_reloads`.
That is so for every console that prints documents and every reader that reads
them.
-/

namespace FluentFixtures.Command

open Files

variable {packages : Packages} {rules : RuleTable}

/-- What is printed of a table of printable strings. -/
def printedTable (rules : RuleTable) : Text :=
  Json.render 2 0 rules.inOrder.document ++ ("\n" : Text)

theorem isSpacing_lineEnd : Text.IsSpacing ("\n" : Text) :=
  List.forall_mem_singleton.mpr (.inr rfl)

theorem printableLines_printedTable (h : rules.Printable) : Json.PrintableLines (printedTable rules) :=
  (Json.printableLines_render h.inOrder.document 0).append (.of_spacing isSpacing_lineEnd)

/-- A table of printable strings is printed with each part on a line of its own, and no file is
changed. -/
theorem runRules_of_printable (hconsole : packages.console.PrintsJson) (h : rules.Printable)
    {settings : Settings} (hrules : settings.rules = rules) (fs : FileSystem) :
    runRules packages fs settings = ⟨printedTable rules, .exit 0, fs⟩ := by
  have hread : Json.read (Json.compact rules.inOrder.document) = .ok rules.inOrder.document :=
    Json.read_compact h.inOrder.document h.inOrder.namesDistinct
  have hprint := hconsole hread h.inOrder.document
  rw [runRules, hrules, h.shown]
  simp only [lastly, hprint]
  rfl

theorem ofFile_printedTable (hreader : packages.reader.ReadsDocuments) (h : rules.Printable)
    {bytes : Bytes} (hbytes : Utf8.encode? (printedTable rules) = some bytes) {fs : FileSystem}
    {path : Text} {place : Location} (hopen : fs.openFile path = .ok (place, bytes)) :
    Config.ofFile packages.reader fs path =
      .ok { Settings.default with rules := rules.inOrder.rules } := by
  rw [Config.ofFile, hopen]
  exact h.inOrder.ofBytes_document hreader 2 isSpacing_lineEnd path hbytes

/-- Whether what is printed of a table, as it is put out and in bytes, is a configuration file for the
other table. -/
structure Reloads (packages : Packages) (rules : RuleTable) (output : Text) (bytes : Bytes)
    (rules' : RuleTable) : Prop where
  /-- The table is printed whatever the files and the other settings are. -/
  printed : ∀ (fs : FileSystem) (settings : Settings), settings.rules = rules →
    runRules packages fs settings = ⟨output, .exit 0, fs⟩
  encoded : Utf8.encode? output = some bytes
  /-- Where it stands in a file, the file gives the other table, and defaults for all else. -/
  loaded : ∀ (fs : FileSystem) (path : Text) (place : Location), fs.openFile path = .ok (place, bytes) →
    Config.ofFile packages.reader fs path = .ok { Settings.default with rules := rules' }
  equal : rules.Equals rules'
  implies : ∀ (type : Text) (key : Key), rules'.implies type key = rules.implies type key
  pruned : ∀ t : Tree, t.dropImpliedTypes rules' = t.dropImpliedTypes rules

/-- What is printed of a table of printable strings, whatever they say, is a configuration file that
gives an equal table. So the position of a node implies the same types, and trees are pruned
alike. -/
theorem runRules_reloads (hconsole : packages.console.PrintsJson)
    (hreader : packages.reader.ReadsDocuments) (h : rules.Printable) :
    ∃ output bytes rules', Reloads packages rules output bytes rules' := by
  obtain ⟨bytes, hbytes⟩ := (printableLines_printedTable h).encode?
  have hequals : rules.Equals rules.inOrder.rules := RuleTable.equals_inOrder h.distinct
  refine ⟨printedTable rules, bytes, rules.inOrder.rules, ?_⟩
  constructor
  case printed => exact fun fs settings hrules => runRules_of_printable hconsole h hrules fs
  case encoded => exact hbytes
  case loaded => exact fun fs path place hopen => ofFile_printedTable hreader h hbytes hopen
  case equal => exact hequals
  case implies => exact hequals.implies
  case pruned => exact hequals.dropImpliedTypes

/-- A table of texts that would not be themselves without quotes, with parts that are empty. -/
def awkwardRules : RuleTable where
  unambiguous := [.str "a \"b\" \\ c: d # e", .str "null", .str "- 1"]
  exempt := []
  positional := [(.str "true", []), (.str "", [.str "\x7b", .str " "])]

theorem printable_awkwardRules : awkwardRules.Printable where
  unambiguous := by decide
  exempt := nofun
  types := by decide
  keys entry hentry := by
    rcases List.mem_cons.mp hentry with rfl | hentry
    · exact ⟨_, rfl, by decide, by decide⟩
    · obtain rfl := List.mem_singleton.mp hentry
      exact ⟨_, rfl, by decide, by decide⟩
  distinct := by
    simp only [KeyMap.Distinct, awkwardRules, ← Key.same_iff_equals]
    decide

/-- The awkward table is printed and read back, and the empty key implies a brace as it did. -/
theorem runRules_reloads_awkward : awkwardRules.Printable ∧
    ∃ output rules', runRules (.standard 80) (configFile [])
        { Settings.default with rules := awkwardRules } = ⟨output, .exit 0, configFile []⟩ ∧
      Config.ofFile Yaml.reader (configFile output) "c.yaml" =
        .ok { Settings.default with rules := rules' } ∧
      rules'.implies "\x7b" (.str []) = true ∧ rules'.implies "\x7b" (.str "true") = false := by
  have hconsole : (Packages.standard 80).console.PrintsJson := Console.printsJson_plain 80
  obtain ⟨output, bytes, rules', hreloads⟩ :=
    runRules_reloads hconsole Yaml.readsDocuments_reader printable_awkwardRules
  have hopen : (configFile output).openFile "c.yaml" = .ok ([("c.yaml" : Text)], bytes) := by
    rw [← (Utf8.encode?_eq_some_iff.mp hreloads.encoded).2]
    rfl
  refine ⟨printable_awkwardRules, output, rules', hreloads.printed _ _ rfl,
    hreloads.loaded _ _ _ hopen, ?_, ?_⟩
  · rw [hreloads.implies]
    decide
  · rw [hreloads.implies]
    decide

end FluentFixtures.Command
