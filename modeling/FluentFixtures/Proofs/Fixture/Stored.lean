import FluentFixtures.Proofs.Fixture.Outcome
import FluentFixtures.Proofs.Json.Writable

/-!
# Documents in files

Whatever its strings and names hold, a tree that can be written has a document
that a file can keep: it has bytes, and reading these with line ends unified gives
it back, `write_stored`. Strings and names cannot spoil this because the control
characters in them are spelled out inside the quotes, and the surrogates after.
-/

namespace FluentFixtures.Fixture

variable {settings : Settings} {t : Tree} {document : Text}

/-- A document does not start with a byte order mark, since it would not be read with one. -/
theorem head?_of_write (h : Document.write settings t = .ok document) :
    document.head? ≠ some Json.byteOrderMark := by
  intro hmark
  have hread := Json.read_of_write (Document.write_eq_ok_iff.mp h)
  rw [Json.read, if_pos hmark] at hread
  cases hread

theorem exists_document (settings : Settings) (ht : t.Writable)
    (hindents : Json.Indents settings.indent t) :
    ∃ document, Document.write settings t = .ok document := by
  obtain ⟨document, hwrite⟩ := Json.exists_write ht hindents
  exact ⟨document, Document.write_eq_ok_iff.mpr hwrite⟩

/-- A tree with any strings and names has a document without surrogates, without control characters
but line feeds and without a byte order mark in front, which is read from its bytes. Only an indent
that is out of bounds keeps it from being written. -/
theorem write_stored (settings : Settings) (ht : t.Writable) :
    (Json.Indents settings.indent t → ∃ document, Document.write settings t = .ok document) ∧
      (¬ Json.Indents settings.indent t → ∃ e, Json.indentError? settings.indent = some e ∧
        Document.write settings t = .error (.write e)) ∧
      ∀ document, Document.write settings t = .ok document →
        (∀ c ∈ document, c.isSurrogate = false) ∧ document.OnlyLineFeeds ∧
          document.head? ≠ some Json.byteOrderMark ∧
          ∃ bytes, Utf8.encode? document = some bytes ∧ textOf bytes = .ok document := by
  refine ⟨exists_document settings ht, Document.write_of_not_indents settings,
    fun document hwrite => ?_⟩
  have hbytes := encode?_of_write hwrite
  exact ⟨Document.isSurrogate_of_write hwrite, onlyLineFeeds_of_write hwrite, head?_of_write hwrite,
    _, hbytes, textOf_of_write hwrite⟩

/-- A surrogate pair in a name; in the strings surrogates behind a backslash and a quote, a carriage
return, and a byte order mark. -/
def hostileTree : Tree :=
  .keyed [([0xD83D, 0xDE00], .leaf (.str [0x5C, 0xD83D, 0x22, 0xDE00, 0x0D])),
    ([0xFEFF], .seq [.leaf (.str [0xFEFF, 0x1F]), .leaf (.int (-7))])]

theorem write_stored_hostileTree :
    hostileTree.Writable ∧
      ∃ document bytes, Document.write .default hostileTree = .ok document ∧
        (∀ c ∈ document, c.isSurrogate = false) ∧ document.OnlyLineFeeds ∧
        document.head? ≠ some Json.byteOrderMark ∧
        Utf8.encode? document = some bytes ∧ textOf bytes = .ok document := by
  have hnumber : Scalar.Writable (.int (-7)) :=
    (isTooLong_eq_false_iff (-7)).mp (isTooLong_of_lt (k := 1) (by decide) (by decide))
  have ht : hostileTree.Writable :=
    ⟨trivial, trivial, ⟨trivial, trivial, hnumber, trivial⟩, trivial⟩
  obtain ⟨hexists, -, hstored⟩ := write_stored .default ht
  obtain ⟨document, hwrite⟩ := hexists (.inl rfl)
  obtain ⟨hsurrogate, hcontrol, hmark, bytes, hbytes, htext⟩ := hstored document hwrite
  exact ⟨ht, document, bytes, hwrite, hsurrogate, hcontrol, hmark, hbytes, htext⟩

end FluentFixtures.Fixture
