import FluentFixtures.Proofs.Document.Storable
import FluentFixtures.Proofs.Faults
import FluentFixtures.Proofs.Json.Length
import FluentFixtures.Proofs.Passes.Stable

/-!
# Normalizing a document twice

The normal form of a document is read as the normalized tree with its surrogate
pairs joined, and a second run takes one more dash off the names. So it changes
nothing if and only if no name has a dash left and there is no pair to join. In
the normal form of a text without surrogates there is none.
-/

namespace FluentFixtures.Document

variable {settings : Settings} {x y : Text} {t u : Tree}

theorem normalize_eq_ok_iff : normalize settings x = .ok y ↔
    ∃ t u, read x = .ok t ∧ normalizeTree settings t = .ok u ∧ write settings u = .ok y := by
  rw [normalize]
  simp only [bind_eq_ok_iff, exists_and_left]

theorem write_eq_ok_iff : write settings t = .ok y ↔ Json.write settings.indent t = .ok y :=
  mapError_eq_ok_iff

theorem normalizeTree_eq_ok_iff : normalizeTree settings t = .ok u ↔
    t.normalize settings.rules settings.keepBlankLines = .ok u :=
  mapError_eq_ok_iff

theorem read_of_write (h : write settings u = .ok y) : read y = .ok u.joinPairs := by
  rw [read, Json.read_of_write (write_eq_ok_iff.mp h)]
  rfl

theorem isSurrogate_of_write (h : write settings u = .ok y) : ∀ c ∈ y, c.isSurrogate = false := by
  obtain ⟨-, rfl⟩ := Json.write_eq_ok_iff.mp (write_eq_ok_iff.mp h)
  exact Surrogate.isSurrogate_escape _

/-- A tree that has the document of its joined tree has no pair to join. -/
theorem joinPairs_eq_self_of_write (h : write settings u = .ok y)
    (hjoined : write settings u.joinPairs = .ok y) : u.joinPairs = u := by
  obtain ⟨-, htext⟩ := Json.write_eq_ok_iff.mp (write_eq_ok_iff.mp h)
  obtain ⟨-, htext'⟩ := Json.write_eq_ok_iff.mp (write_eq_ok_iff.mp hjoined)
  apply (Json.joinPairs_eq_or_shorter settings.indent.toNat 0 u).resolve_right
  intro hshorter
  have hlength := congrArg List.length (htext'.trans htext.symm)
  exact hshorter.ne hlength

/-! ## The second run -/

variable (hrules : settings.rules.NoIndexKey) (hnormal : normalizeTree settings t = .ok u)
  (hwrite : write settings u = .ok y)

include hrules hnormal hwrite

/-- The second run takes one more dash off the names if there is no pair to join. -/
theorem normalize_normal (hjoined : u.joinPairs = u) :
    normalize settings y = write settings u.undashNames := by
  have hread := read_of_write hwrite
  have hagain := Tree.normalize_normal hrules (normalizeTree_eq_ok_iff.mp hnormal)
  rw [hjoined] at hread
  rw [normalize, hread]
  show (do let normal ← normalizeTree settings u; write settings normal) = _
  rw [normalizeTree_eq_ok_iff.mpr hagain]
  rfl

theorem normalize_eq_self_iff :
    normalize settings y = .ok y ↔ u.Undashed ∧ u.joinPairs = u := by
  constructor
  · intro h
    obtain ⟨v, w, hread, hagain, hwrite'⟩ := normalize_eq_ok_iff.mp h
    have hv : v.Encodable := encodable_of_read (isSurrogate_of_write hwrite) hread
    have hw : w.Encodable := hv.normalize (normalizeTree_eq_ok_iff.mp hagain)
    -- Both runs have one document, so they have one tree with joined pairs.
    have hfirst : v = u.joinPairs := Except.ok.inj (hread.symm.trans (read_of_write hwrite))
    have hsecond : v = w := by
      have hread' := read_of_write hwrite'
      rw [Tree.joinPairs_eq_self hw] at hread'
      exact Except.ok.inj (hread.symm.trans hread')
    have hjoined : u.joinPairs = u := by
      rw [← hsecond, hfirst] at hwrite'
      exact joinPairs_eq_self_of_write hwrite hwrite'
    have hundash : u.undashNames = u := by
      have hdashes := Tree.normalize_normal hrules (normalizeTree_eq_ok_iff.mp hnormal)
      have hsame := normalizeTree_eq_ok_iff.mp hagain
      rw [← hsecond, hfirst, hjoined] at hsame
      exact Except.ok.inj (hdashes.symm.trans hsame)
    exact ⟨u.undashNames_eq_self_iff.mp hundash, hjoined⟩
  · rintro ⟨hundashed, hjoined⟩
    rw [normalize_normal hrules hnormal hwrite hjoined,
      u.undashNames_eq_self_iff.mpr hundashed, hwrite]

omit hrules hnormal hwrite

/-! ## Encodable trees -/

theorem storable_of_write (hu : u.Encodable) (hwrite : write settings u = .ok y) :
    u.Storable ∧ Json.Indents settings.indent u := by
  obtain ⟨herror, -⟩ := Json.write_eq_ok_iff.mp (write_eq_ok_iff.mp hwrite)
  obtain ⟨hindents, hfinite⟩ := (Json.error?_eq_none_iff hu).mp herror
  exact ⟨⟨hu, hfinite⟩, hindents⟩

theorem indents_undashNames (h : Json.Indents settings.indent u) :
    Json.Indents settings.indent u.undashNames := by
  rcases h with h | ⟨s, rfl⟩
  · exact .inl h
  · refine .inr ⟨s, ?_⟩
    rw [Tree.undashNames_eq_rewrite, Tree.rewrite]

include hrules hnormal hwrite in
/-- The normal form of an encodable tree has a normal form, and that is the same if and only if no
name has a dash left. -/
theorem exists_normalize_normal (hu : u.Encodable) :
    ∃ z, normalize settings y = .ok z ∧ (z = y ↔ u.Undashed) := by
  have hjoined : u.joinPairs = u := Tree.joinPairs_eq_self hu
  obtain ⟨hstorable, hindents⟩ := storable_of_write hu hwrite
  obtain ⟨z, hz, -⟩ := read_write settings hstorable.undashNames (indents_undashNames hindents)
  have hagain := (normalize_normal hrules hnormal hwrite hjoined).trans hz
  refine ⟨z, hagain, ?_⟩
  have hsame := normalize_eq_self_iff hrules hnormal hwrite
  rw [hagain, Except.ok.injEq, and_iff_left hjoined] at hsame
  exact hsame

/-! ## The default settings -/

/-- Normalizing a normal form again changes nothing if and only if no name of the normalized tree
has a dash left and there is no surrogate pair to join; the normal form of a text without surrogates
has none, and is normalized to the tree with one more dash off the names. -/
theorem normalize_again (h : normalize .default x = .ok y) :
    ∃ t u, read x = .ok t ∧ normalizeTree .default t = .ok u ∧ write .default u = .ok y ∧
      (normalize .default y = .ok y ↔ u.Undashed ∧ u.joinPairs = u) ∧
      ((∀ c ∈ x, c.isSurrogate = false) → u.joinPairs = u ∧
        ∃ z, write .default u.undashNames = .ok z ∧ normalize .default y = .ok z) := by
  obtain ⟨t, u, hread, hnormal, hwrite⟩ := normalize_eq_ok_iff.mp h
  have hrules : Settings.default.rules.NoIndexKey := RuleTable.noIndexKey_default
  refine ⟨t, u, hread, hnormal, hwrite, normalize_eq_self_iff hrules hnormal hwrite, ?_⟩
  intro hx
  have ht : t.Encodable := encodable_of_read hx hread
  have hu : u.Encodable := ht.normalize (normalizeTree_eq_ok_iff.mp hnormal)
  have hjoined : u.joinPairs = u := Tree.joinPairs_eq_self hu
  obtain ⟨hstorable, -⟩ := storable_of_write hu hwrite
  obtain ⟨z, hz, -⟩ := read_write .default hstorable.undashNames (.inl rfl)
  exact ⟨hjoined, z, hz, (normalize_normal hrules hnormal hwrite hjoined).trans hz⟩

/-- A tree with one name. -/
def namedTree (name : Text) : Tree := .keyed [(nameField, .leaf (.str name))]

/-- The document of a tree with one name. -/
def named (name : Text) : Text := ("\x7b\n    \"name\": \"" : Text) ++ name ++ ("\"\n\x7d" : Text)

theorem write_namedTree : write .default (namedTree "--x") = .ok (named "--x") := rfl

theorem normalizeTree_namedTree :
    normalizeTree .default (namedTree "--x") = .ok (namedTree "-x") := by
  rw [normalizeTree_eq_ok_iff, Tree.normalize_eq_split]
  rfl

theorem normalize_named : normalize .default (named "--x") = .ok (named "-x") := by
  have hread : read (named "--x") = .ok (namedTree "--x") := read_of_write write_namedTree
  exact normalize_eq_ok_iff.mpr ⟨_, _, hread, normalizeTree_namedTree, rfl⟩

theorem normalize_again_named :
    ∃ t u, read (named "--x") = .ok t ∧ normalizeTree .default t = .ok u ∧
      (normalize .default (named "-x") = .ok (named "-x") ↔ u.Undashed ∧ u.joinPairs = u) ∧
      ∃ z, write .default u.undashNames = .ok z ∧ normalize .default (named "-x") = .ok z := by
  obtain ⟨t, u, hread, hnormal, -, hagain, hplain⟩ := normalize_again normalize_named
  obtain ⟨-, hsecond⟩ := hplain (isSurrogate_of_write write_namedTree)
  exact ⟨t, u, hread, hnormal, hagain, hsecond⟩

/-- Of two dashes, each run takes one. -/
theorem normalize_named_ne : normalize .default (named "--x") = .ok (named "-x") ∧
    normalize .default (named "-x") ≠ .ok (named "-x") := by
  refine ⟨normalize_named, ?_⟩
  intro hsame
  have hagain := normalize_eq_self_iff RuleTable.noIndexKey_default normalizeTree_namedTree
    (y := named "-x") rfl
  obtain ⟨⟨hundashed, -⟩, -⟩ := hagain.mp hsame
  exact hundashed "x" List.mem_cons_self

end FluentFixtures.Document
