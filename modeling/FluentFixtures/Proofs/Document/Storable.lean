import FluentFixtures.Document
import FluentFixtures.Proofs.Json.Read
import FluentFixtures.Proofs.Json.RoundTrip
import FluentFixtures.Proofs.Passes.Storable

/-!
# What documents hold

Trees that are read are encodable, passes keep trees storable, and a storable
tree is read from its document: `reading_undoes_writing`. An encodable tree is
refused for its first double that is not finite, or for an indent that its lines
cannot have.
-/

namespace FluentFixtures.Document

variable (settings : Settings)

theorem encodable_of_read {document : Text} (hdocument : ∀ c ∈ document, c.isSurrogate = false)
    {t : Tree} (h : read document = .ok t) : t.Encodable := by
  unfold read at h
  cases hread : Json.read document with
  | error e => rw [hread] at h; cases h
  | ok tree =>
    rw [hread] at h
    obtain rfl := Except.ok.inj h
    exact Json.encodable_read hdocument hread

theorem write_eq_error_iff {t : Tree} (ht : t.Encodable) (hindents : Json.Indents settings.indent t)
    (e : DocumentError) : write settings t = .error e ↔
      ∃ d, t.nonFinite? = some d ∧ e = .write (.nonFinite d) := by
  have herror := Json.error?_eq_of_indents ht hindents
  rw [write, Json.write, herror]
  cases t.nonFinite? with
  | none => simp [Except.mapError]
  | some d => simp [Except.mapError, eq_comm]

theorem write_of_not_indents {t : Tree} (hindents : ¬ Json.Indents settings.indent t) :
    ∃ e, Json.indentError? settings.indent = some e ∧ write settings t = .error (.write e) := by
  obtain ⟨herror, hsome⟩ := Json.error?_of_not_indents hindents
  obtain ⟨e, he⟩ := Option.isSome_iff_exists.mp hsome
  refine ⟨e, he, ?_⟩
  rw [write, Json.write, herror, he]
  rfl

theorem read_write {t : Tree} (ht : t.Storable) (hindents : Json.Indents settings.indent t) :
    ∃ document, write settings t = .ok document ∧ read document = .ok t := by
  obtain ⟨document, hwrite, hread⟩ := Json.read_write ht hindents
  refine ⟨document, ?_, ?_⟩
  · rw [write, hwrite]
    rfl
  · rw [read, hread]
    rfl

/-- What is read is encodable, the passes keep trees storable, and reading undoes writing: an
encodable tree is written unless it holds a double that is not finite, the first of which is named,
or the indent is out of bounds, and a storable tree is read from what is written. -/
theorem reading_undoes_writing :
    (∀ document t, (∀ c ∈ document, c.isSurrogate = false) → read document = .ok t →
        t.Encodable) ∧
      (∀ t : Tree, t.Storable →
        t.undashNames.Storable ∧ (t.dropImpliedTypes settings.rules).Storable ∧
          ∀ u, t.splitLines settings.keepBlankLines = .ok u → u.Storable) ∧
      (∀ t : Tree, t.Encodable →
        (Json.Indents settings.indent t → ∀ e, write settings t = .error e ↔
            ∃ d, t.nonFinite? = some d ∧ e = .write (.nonFinite d)) ∧
          (¬ Json.Indents settings.indent t →
            ∃ e, Json.indentError? settings.indent = some e ∧
              write settings t = .error (.write e))) ∧
      ∀ t : Tree, t.Storable → Json.Indents settings.indent t →
        ∃ document, write settings t = .ok document ∧ read document = .ok t := by
  refine ⟨fun _ _ hdocument => encodable_of_read hdocument, ?_, ?_, fun _ => read_write settings⟩
  · intro t ht
    exact ⟨ht.undashNames, ht.dropImpliedTypes settings.rules, fun u => ht.splitLines⟩
  · intro t ht
    exact ⟨write_eq_error_iff settings ht, write_of_not_indents settings⟩

/-- Half of a surrogate pair, a quote, a control character and numbers of both kinds. -/
def mixedTree : Tree :=
  .keyed [("\"", .leaf (.str [0xD83D, 0x22, 0x1])),
    ("n", .seq [.leaf (.int (-7)), .leaf (.double (.finite true 1)), .leaf .null])]

theorem reading_undoes_writing_mixedTree :
    mixedTree.Storable ∧ Json.Indents Settings.default.indent mixedTree ∧
      ∃ document, write .default mixedTree = .ok document ∧ read document = .ok mixedTree := by
  have hstorable : mixedTree.Storable := ⟨by decide +kernel, by decide⟩
  have hindents : Json.Indents Settings.default.indent mixedTree := .inl rfl
  obtain ⟨-, -, -, hround⟩ := reading_undoes_writing .default
  exact ⟨hstorable, hindents, hround mixedTree hstorable hindents⟩

/-- The settings with an indent below all bounds. -/
def farIndent : Settings := { Settings.default with indent := -100000000000000000000 }

/-- A tree that a document can hold has none with such an indent. -/
theorem write_farIndent :
    Tree.Storable (.leaf (.bool true)) ∧
      write farIndent (.leaf (.bool true)) = .error (.write .indentOutOfRange) :=
  ⟨⟨trivial, trivial⟩, rfl⟩

end FluentFixtures.Document
