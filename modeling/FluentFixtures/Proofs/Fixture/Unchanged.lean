import FluentFixtures.Proofs.Fixture.Outcome

/-!
# Fixtures that stay as they are

The bytes of a normal form are read as that normal form, because it has neither
surrogates nor carriage returns. So a fixture that was normalized stays as it is
unless a name has a dash left: `normalize_written`. A fixture whose text does not
change keeps its bytes if and only if it has no carriage return:
`openFile_normalized_iff`.
-/

namespace FluentFixtures.Fixture

open Files

variable {settings : Settings} {content bytes : Bytes} {text normal : Text} {u : Tree}
  {fs after : FileSystem} {path : Path} {result : FixtureResult}

/-! ## Bytes -/

theorem isSurrogate_of_textOf (h : textOf content = .ok text) :
    ∀ c ∈ text, c.isSurrogate = false := by
  obtain ⟨raw, hdecode, rfl⟩ := textOf_eq_ok_iff.mp h
  obtain ⟨hraw, -⟩ := Utf8.encode?_eq_some_iff.mp (Utf8.decode_eq_ok_iff.mp hdecode)
  intro c hc
  rcases Newline.mem_of_mem_unify hc with rfl | hc
  · rfl
  · exact hraw c hc

theorem not_mem_of_normal (h : Document.normalize settings text = .ok normal) :
    Newline.carriageReturn ∉ normal := by
  obtain ⟨-, u, -, -, hwrite⟩ := Document.normalize_eq_ok_iff.mp h
  exact (onlyLineFeeds_of_write hwrite).not_mem_carriageReturn

theorem textOf_of_normal (h : Document.normalize settings text = .ok normal)
    (hbytes : Utf8.encode? normal = some bytes) : textOf bytes = .ok normal := by
  obtain ⟨-, u, -, -, hwrite⟩ := Document.normalize_eq_ok_iff.mp h
  obtain rfl := Option.some.inj ((encode?_of_write hwrite).symm.trans hbytes)
  exact textOf_of_write hwrite

theorem mem_content_iff {raw : Text} (hdecode : Utf8.decode content = .ok raw) :
    0x0D ∈ content ↔ Newline.carriageReturn ∈ raw := by
  obtain ⟨-, rfl⟩ := Utf8.encode?_eq_some_iff.mp (Utf8.decode_eq_ok_iff.mp hdecode)
  exact Utf8.mem_flatMap_iff (by decide)

/-- The normal form has the bytes of the content if and only if it is its text and the content has no
carriage return. -/
theorem bytes_eq_content_iff (htext : textOf content = .ok text)
    (hnormal : Document.normalize settings text = .ok normal)
    (hbytes : Utf8.encode? normal = some bytes) :
    bytes = content ↔ normal = text ∧ 0x0D ∉ content := by
  obtain ⟨raw, hdecode, rfl⟩ := textOf_eq_ok_iff.mp htext
  have hreturn := mem_content_iff hdecode
  constructor
  · rintro rfl
    have hraw : raw = normal :=
      Except.ok.inj (hdecode.symm.trans (Utf8.decode_eq_ok_iff.mpr hbytes))
    have hnone : Newline.carriageReturn ∉ raw := hraw ▸ not_mem_of_normal hnormal
    exact ⟨hraw ▸ (Newline.unify_eq_self hnone).symm, fun h => hnone (hreturn.mp h)⟩
  · rintro ⟨hsame, hnone⟩
    rw [Newline.unify_eq_self fun h => hnone (hreturn.mpr h)] at hsame
    rw [hsame, Utf8.decode_eq_ok_iff.mp hdecode] at hbytes
    exact (Option.some.inj hbytes).symm

/-! ## What a check says of the bytes -/

/-- A run leaves the bytes of a fixture as they are if and only if a check says that the text does
not change and there is no carriage return. -/
theorem openFile_normalized_iff (h : (normalize fs settings true path).2 = .ok result) :
    ∃ place content, fs.openFile path.toText = .ok (place, content) ∧
      ((normalize fs settings false path).1.openFile path.toText = .ok (place, content) ↔
        result.changed = false ∧ 0x0D ∉ content) := by
  obtain ⟨place, content, text, normal, bytes, hopen, htext, hnormal, hbytes, hcheck, hwrite⟩ :=
    normal_of_ok h
  rw [hcheck] at h
  obtain rfl := Except.ok.inj h
  refine ⟨place, content, hopen, ?_⟩
  rw [hwrite, FileSystem.openFile_setContent_self hopen, Except.ok.injEq, Prod.mk.injEq,
    bytes_eq_content_iff htext hnormal hbytes]
  simp

/-- A document with carriage returns, which are no part of its text. -/
def returnedContent : Bytes :=
  ("\x7b\r\n    \"name\": \"x\"\r\n\x7d" : Text).flatMap Utf8.encodePoint

theorem textOf_returnedContent : textOf returnedContent = .ok (Document.named "x") := by
  have hencode : Utf8.encode? "\x7b\r\n    \"name\": \"x\"\r\n\x7d" = some returnedContent := by rfl
  exact textOf_eq_ok_iff.mpr ⟨_, Utf8.decode_eq_ok_iff.mpr hencode, rfl⟩

theorem normalize_named_self :
    Document.normalize .default (Document.named "x") = .ok (Document.named "x") := by
  have hwrite : Document.write .default (Document.namedTree "x") = .ok (Document.named "x") := rfl
  have hnormal : Document.normalizeTree .default (Document.namedTree "x") =
      .ok (Document.namedTree "x") := by
    rw [Document.normalizeTree_eq_ok_iff, Tree.normalize_eq_split]
    rfl
  exact Document.normalize_eq_ok_iff.mpr ⟨_, _, Document.read_of_write hwrite, hnormal, hwrite⟩

/-- The file with that content after a run. -/
def returnedRun : FileSystem :=
  (oneFile returnedContent).setContent [("a.json" : Text)] (namedContent "x")

theorem normalize_returnedContent :
    normalize (oneFile returnedContent) .default true onePath =
        (oneFile returnedContent, .ok ⟨onePath, false, false⟩) ∧
      normalize (oneFile returnedContent) .default false onePath =
        (returnedRun, .ok ⟨onePath, false, true⟩) := by
  have hrun := normalize_of_normal (openFile_oneFile _) textOf_returnedContent
    normalize_named_self (encode?_normal normalize_named_self)
  rw [decide_eq_false (not_not.mpr rfl)] at hrun
  exact hrun

theorem openFile_normalized_returnedContent :
    (normalize (oneFile returnedContent) .default true onePath).2 =
        .ok ⟨onePath, false, false⟩ ∧
      ∃ place content,
        (oneFile returnedContent).openFile onePath.toText = .ok (place, content) ∧
        ((normalize (oneFile returnedContent) .default false onePath).1.openFile onePath.toText =
            .ok (place, content) ↔
          FixtureResult.changed ⟨onePath, false, false⟩ = false ∧ 0x0D ∉ content) :=
  have hcheck := congrArg Prod.snd normalize_returnedContent.1
  ⟨hcheck, openFile_normalized_iff hcheck⟩

/-- A check that says that the text does not change does not say that the bytes stay. -/
theorem returnedContent_rewritten :
    (normalize (oneFile returnedContent) .default true onePath).2 =
        .ok ⟨onePath, false, false⟩ ∧
      (normalize (oneFile returnedContent) .default false onePath).1.openFile onePath.toText ≠
        (oneFile returnedContent).openFile onePath.toText := by
  obtain ⟨hcheck, hrun⟩ := normalize_returnedContent
  refine ⟨congrArg Prod.snd hcheck, ?_⟩
  rw [hrun, returnedRun, FileSystem.openFile_setContent_self (openFile_oneFile _), openFile_oneFile]
  intro hsame
  obtain ⟨-, hbytes⟩ := Prod.mk.inj (Except.ok.inj hsame)
  have hlength := congrArg List.length hbytes
  exact absurd hlength (by decide)

/-! ## What a run leaves -/

/-- Whether a content is normalized to the tree, and the document of the tree has the bytes. -/
def Writes (settings : Settings) (content : Bytes) (u : Tree) (bytes : Bytes) : Prop :=
  ∃ text t normal, textOf content = .ok text ∧ Document.read text = .ok t ∧
    Document.normalizeTree settings t = .ok u ∧ Document.write settings u = .ok normal ∧
    Utf8.encode? normal = some bytes

/-- A fixture that was normalized has a normal form. A check says that it stays as it is if and only
if no name of the tree that was written has a dash left; then a second run changes nothing. -/
theorem normalize_written (hrules : settings.rules.NoIndexKey)
    (h : normalize fs settings false path = (after, .ok result)) :
    ∃ place content u bytes, fs.openFile path.toText = .ok (place, content) ∧
      Writes settings content u bytes ∧ after.openFile path.toText = .ok (place, bytes) ∧
      ∃ checked, normalize after settings true path = (after, .ok checked) ∧
        (checked.changed = false ↔ u.Undashed) ∧
        (u.Undashed → ∃ again, normalize after settings false path = (after, .ok again)) := by
  obtain ⟨place, content, text, normal, bytes, hopen, htext, hnormal, hbytes, -, hwrite⟩ :=
    normal_of_ok (congrArg Prod.snd h)
  rw [hwrite] at h
  obtain ⟨rfl, -⟩ := Prod.mk.inj h
  obtain ⟨t, u, hread, htree, hdocument⟩ := Document.normalize_eq_ok_iff.mp hnormal
  have hu : u.Encodable := (Document.encodable_of_read (isSurrogate_of_textOf htext) hread).normalize
    (Document.normalizeTree_eq_ok_iff.mp htree)
  obtain ⟨second, hsecond, hsame⟩ :=
    Document.exists_normalize_normal hrules htree hdocument hu
  have hopen' : (fs.setContent place bytes).openFile path.toText = .ok (place, bytes) :=
    FileSystem.openFile_setContent_self hopen
  obtain ⟨hcheck, hagain⟩ := normalize_of_normal hopen' (textOf_of_normal hnormal hbytes) hsecond
    (encode?_normal hsecond)
  refine ⟨place, content, u, bytes, hopen, ⟨text, t, normal, htext, hread, htree, hdocument, hbytes⟩,
    hopen', _, hcheck, ?_, ?_⟩
  · rw [← hsame]
    simp
  · intro hundashed
    obtain rfl := hsame.mpr hundashed
    obtain ⟨-, hnode⟩ := FileSystem.openFile_eq_ok_iff.mp hopen'
    rw [Option.some.inj ((encode?_normal hnormal).symm.trans hbytes),
      FileSystem.setContent_eq_self hnode] at hagain
    exact ⟨_, hagain⟩

theorem normalize_written_returnedContent :
    RuleTable.default.NoIndexKey ∧
      normalize (oneFile returnedContent) .default false onePath =
        (returnedRun, .ok ⟨onePath, false, true⟩) ∧
      ∃ place content u bytes,
        (oneFile returnedContent).openFile onePath.toText = .ok (place, content) ∧
        Writes .default content u bytes ∧ returnedRun.openFile onePath.toText = .ok (place, bytes) ∧
        ∃ checked, normalize returnedRun .default true onePath = (returnedRun, .ok checked) ∧
          (checked.changed = false ↔ u.Undashed) ∧
          (u.Undashed →
            ∃ again, normalize returnedRun .default false onePath = (returnedRun, .ok again)) := by
  obtain ⟨-, hrun⟩ := normalize_returnedContent
  exact ⟨RuleTable.noIndexKey_default, hrun, normalize_written RuleTable.noIndexKey_default hrun⟩

end FluentFixtures.Fixture
