import FluentFixtures.Fixture
import FluentFixtures.Proofs.Document.Stable
import FluentFixtures.Proofs.Faults
import FluentFixtures.Proofs.Files.Content
import FluentFixtures.Proofs.Json.Rows
import FluentFixtures.Proofs.Text.Utf8

/-!
# What becomes of a fixture

`normalize_cases` says all that normalizing a fixture can come to: its path
leads to no file, its content has no normal form, or its content is replaced by
the normal form, which always encodes. So a fixture that fails is as it was, and
a check foretells what a run does: `normalize_atomic`.
-/

namespace FluentFixtures.Fixture

open Files

/-! ## Contents -/

/-- Whether one content is normalized to the other. -/
def Normalizes (settings : Settings) (content bytes : Bytes) : Prop :=
  ∃ text normal, textOf content = .ok text ∧ Document.normalize settings text = .ok normal ∧
    Utf8.encode? normal = some bytes

/-- Why a content has no normal form: it is no UTF-8, or its text is no document that has one. -/
inductive Refuses (settings : Settings) (content : Bytes) : FixtureError → Prop where
  | encoding {fault : Utf8.Fault} (h : Utf8.decode content = .error fault) :
    Refuses settings content (.encoding fault)
  | document {text : Text} {e : DocumentError} (htext : textOf content = .ok text)
    (h : Document.normalize settings text = .error e) : Refuses settings content (.document e)

variable {settings : Settings} {content : Bytes} {text normal : Text} {fault : Utf8.Fault}
  {e : FixtureError}

theorem textOf_eq_ok_iff : textOf content = .ok text ↔
    ∃ raw, Utf8.decode content = .ok raw ∧ Newline.unify raw = text :=
  map_eq_ok_iff

theorem textOf_eq_error_iff :
    textOf content = .error fault ↔ Utf8.decode content = .error fault :=
  map_eq_error_iff

theorem textOf_flatMap_encodePoint (hsurrogate : ∀ c ∈ text, c.isSurrogate = false)
    (hreturn : Newline.carriageReturn ∉ text) :
    textOf (text.flatMap Utf8.encodePoint) = .ok text := by
  have hencode : Utf8.encode? text = some (text.flatMap Utf8.encodePoint) :=
    Utf8.encode?_eq_some_iff.mpr ⟨hsurrogate, rfl⟩
  exact textOf_eq_ok_iff.mpr ⟨text, Utf8.decode_eq_ok_iff.mpr hencode, Newline.unify_eq_self hreturn⟩

theorem encode?_of_write {t : Tree} (h : Document.write settings t = .ok text) :
    Utf8.encode? text = some (text.flatMap Utf8.encodePoint) :=
  Utf8.encode?_eq_some_iff.mpr ⟨Document.isSurrogate_of_write h, rfl⟩

theorem onlyLineFeeds_of_write {t : Tree} (h : Document.write settings t = .ok text) :
    text.OnlyLineFeeds := Json.onlyLineFeeds_of_write (Document.write_eq_ok_iff.mp h)

/-- A document is read from its bytes, since it has no carriage returns. -/
theorem textOf_of_write {t : Tree} (h : Document.write settings t = .ok text) :
    textOf (text.flatMap Utf8.encodePoint) = .ok text :=
  textOf_flatMap_encodePoint (Document.isSurrogate_of_write h)
    (onlyLineFeeds_of_write h).not_mem_carriageReturn

theorem encode?_normal (h : Document.normalize settings text = .ok normal) :
    Utf8.encode? normal = some (normal.flatMap Utf8.encodePoint) := by
  obtain ⟨-, u, -, -, hwrite⟩ := Document.normalize_eq_ok_iff.mp h
  exact encode?_of_write hwrite

theorem normalForm_eq_error_iff :
    normalForm settings content = .error e ↔ Refuses settings content e := by
  rw [normalForm, bind_eq_error_iff]
  constructor
  · rintro (hencoding | ⟨text, htext, hrest⟩)
    · obtain ⟨fault, hfault, rfl⟩ := mapError_eq_error_iff.mp hencoding
      exact .encoding (textOf_eq_error_iff.mp hfault)
    · rcases bind_eq_error_iff.mp hrest with hdocument | ⟨normal, -, hok⟩
      · obtain ⟨cause, hcause, rfl⟩ := mapError_eq_error_iff.mp hdocument
        exact .document (mapError_eq_ok_iff.mp htext) hcause
      · cases hok
  · rintro (hdecode | ⟨htext, hnormal⟩)
    · exact .inl (mapError_eq_error_iff.mpr ⟨_, textOf_eq_error_iff.mpr hdecode, rfl⟩)
    · refine .inr ⟨_, mapError_eq_ok_iff.mpr htext, ?_⟩
      exact bind_eq_error_iff.mpr (.inl (mapError_eq_error_iff.mpr ⟨_, hnormal, rfl⟩))

theorem normalForm_eq_ok (htext : textOf content = .ok text)
    (hnormal : Document.normalize settings text = .ok normal) :
    normalForm settings content = .ok (normal, decide (normal ≠ text)) := by
  rw [normalForm, htext]
  show (do
    let normal ← (Document.normalize settings text).mapError FixtureError.document
    .ok (normal, decide (normal ≠ text))) = _
  rw [hnormal]
  rfl

/-- A content is refused or has a normal form, and that has its bytes. -/
theorem refuses_or_normal (settings : Settings) (content : Bytes) :
    (∃ e, Refuses settings content e) ∨
      ∃ text normal bytes, textOf content = .ok text ∧
        Document.normalize settings text = .ok normal ∧ Utf8.encode? normal = some bytes := by
  cases htext : textOf content with
  | error fault => exact .inl ⟨_, .encoding (textOf_eq_error_iff.mp htext)⟩
  | ok text =>
    cases hnormal : Document.normalize settings text with
    | error e => exact .inl ⟨_, .document htext hnormal⟩
    | ok normal => exact .inr ⟨text, normal, _, rfl, hnormal, encode?_normal hnormal⟩

/-! ## Files -/

/-- A file with a normal form is rewritten, and a check says whether the text would change. -/
theorem normalize_of_normal {fs : FileSystem} {path : Path} {place : Location} {bytes : Bytes}
    (hopen : fs.openFile path.toText = .ok (place, content)) (htext : textOf content = .ok text)
    (hnormal : Document.normalize settings text = .ok normal)
    (hbytes : Utf8.encode? normal = some bytes) :
    normalize fs settings true path = (fs, .ok ⟨path, decide (normal ≠ text), false⟩) ∧
      normalize fs settings false path =
        (fs.setContent place bytes, .ok ⟨path, decide (normal ≠ text), true⟩) := by
  have hform := normalForm_eq_ok htext hnormal
  unfold normalize
  constructor
  · simp only [hopen, hform, if_true]
  · simp only [hopen, hform, hbytes, Bool.false_eq_true, if_false]

theorem normalize_cases (fs : FileSystem) (settings : Settings) (path : Path) :
    (∃ e, fs.openFile path.toText = .error e ∧
        ∀ check, normalize fs settings check path = (fs, .error (.access e))) ∨
      (∃ place content e, fs.openFile path.toText = .ok (place, content) ∧
        Refuses settings content e ∧
        ∀ check, normalize fs settings check path = (fs, .error e)) ∨
      ∃ place content text normal bytes, fs.openFile path.toText = .ok (place, content) ∧
        textOf content = .ok text ∧ Document.normalize settings text = .ok normal ∧
        Utf8.encode? normal = some bytes ∧
        normalize fs settings true path = (fs, .ok ⟨path, decide (normal ≠ text), false⟩) ∧
        normalize fs settings false path =
          (fs.setContent place bytes, .ok ⟨path, decide (normal ≠ text), true⟩) := by
  cases hopen : fs.openFile path.toText with
  | error e =>
    refine .inl ⟨e, rfl, fun _ => ?_⟩
    simp only [normalize, hopen]
  | ok found =>
    obtain ⟨place, content⟩ := found
    rcases refuses_or_normal settings content with ⟨e, he⟩ |
      ⟨text, normal, bytes, htext, hnormal, hbytes⟩
    · refine .inr (.inl ⟨place, content, e, rfl, he, fun check => ?_⟩)
      simp only [normalize, hopen, normalForm_eq_error_iff.mpr he]
    · obtain ⟨hcheck, hwrite⟩ := normalize_of_normal hopen htext hnormal hbytes
      exact .inr (.inr ⟨place, content, text, normal, bytes, rfl, htext, hnormal, hbytes, hcheck,
        hwrite⟩)

/-- Why the fixture at a path is not normalized: the path leads to no file, or the content of the
file has no normal form. -/
inductive Fails (fs : FileSystem) (settings : Settings) (path : Path) : FixtureError → Prop where
  | access {e : AccessError} (h : fs.openFile path.toText = .error e) :
    Fails fs settings path (.access e)
  | content {place : Location} {content : Bytes} {e : FixtureError}
    (hopen : fs.openFile path.toText = .ok (place, content)) (h : Refuses settings content e) :
    Fails fs settings path e

variable {fs : FileSystem} {path : Path} {place : Location}

theorem Fails.ne_surrogate (h : Fails fs settings path e) : e ≠ .surrogate := by
  cases h with
  | access h => nofun
  | content hopen h => cases h <;> nofun

theorem fails_iff_of_error {denied : AccessError} (h : fs.openFile path.toText = .error denied) :
    Fails fs settings path e ↔ .access denied = e := by
  constructor
  · rintro (h' | ⟨hopen, -⟩)
    · cases h.symm.trans h'
      rfl
    · cases h.symm.trans hopen
  · rintro rfl
    exact .access h

theorem fails_iff_of_ok (h : fs.openFile path.toText = .ok (place, content)) :
    Fails fs settings path e ↔ Refuses settings content e := by
  constructor
  · rintro (h' | ⟨hopen, he⟩)
    · cases h.symm.trans h'
    · cases h.symm.trans hopen
      exact he
  · exact .content h

/-- A run fails, with or without writing, for the reasons there are and no other. -/
theorem normalize_eq_error_iff (fs : FileSystem) (settings : Settings) (path : Path) (check : Bool)
    (e : FixtureError) :
    (normalize fs settings check path).2 = .error e ↔ Fails fs settings path e := by
  rcases normalize_cases fs settings path with ⟨denied, hopen, hrun⟩ |
    ⟨place, content, e', hopen, he', hrun⟩ |
    ⟨place, content, text, normal, bytes, hopen, htext, hnormal, hbytes, hcheck, hwrite⟩
  · rw [hrun, fails_iff_of_error hopen, Except.error.injEq]
  · rw [hrun, fails_iff_of_ok hopen, ← normalForm_eq_error_iff, normalForm_eq_error_iff.mpr he',
      Except.error.injEq, Except.error.injEq]
  · rw [fails_iff_of_ok hopen, ← normalForm_eq_error_iff, normalForm_eq_ok htext hnormal]
    cases check <;> simp [hcheck, hwrite]

theorem normalize_check (fs : FileSystem) (settings : Settings) (path : Path) :
    (normalize fs settings true path).1 = fs := by
  rcases normalize_cases fs settings path with ⟨_, -, hrun⟩ | ⟨_, _, _, -, -, hrun⟩ |
    ⟨_, _, _, _, _, -, -, -, -, hcheck, -⟩
  · rw [hrun]
  · rw [hrun]
  · rw [hcheck]

theorem files_of_error {check : Bool} (h : (normalize fs settings check path).2 = .error e) :
    (normalize fs settings check path).1 = fs := by
  rcases normalize_cases fs settings path with ⟨_, -, hrun⟩ | ⟨_, _, _, -, -, hrun⟩ |
    ⟨_, _, _, _, _, -, -, -, -, hcheck, hwrite⟩
  · rw [hrun]
  · rw [hrun]
  · cases check with
    | true => rw [hcheck]
    | false =>
      rw [hwrite] at h
      cases h

theorem normal_of_ok {check : Bool} {result : FixtureResult}
    (h : (normalize fs settings check path).2 = .ok result) :
    ∃ place content text normal bytes, fs.openFile path.toText = .ok (place, content) ∧
      textOf content = .ok text ∧ Document.normalize settings text = .ok normal ∧
      Utf8.encode? normal = some bytes ∧
      normalize fs settings true path = (fs, .ok ⟨path, decide (normal ≠ text), false⟩) ∧
      normalize fs settings false path =
        (fs.setContent place bytes, .ok ⟨path, decide (normal ≠ text), true⟩) := by
  rcases normalize_cases fs settings path with ⟨_, -, hrun⟩ | ⟨_, _, _, -, -, hrun⟩ | hnormal
  · rw [hrun] at h
    cases h
  · rw [hrun] at h
    cases h
  · exact hnormal

theorem result_of_ok {check : Bool} {result : FixtureResult}
    (h : (normalize fs settings check path).2 = .ok result) :
    result.path = path ∧ result.written = !check := by
  obtain ⟨_, _, _, _, _, -, -, -, -, hcheck, hwrite⟩ := normal_of_ok h
  cases check with
  | true =>
    rw [hcheck] at h
    cases h
    exact ⟨rfl, rfl⟩
  | false =>
    rw [hwrite] at h
    cases h
    exact ⟨rfl, rfl⟩

/-- A run that succeeds rewrites the file its path leads to. -/
theorem rewritten_of_ok {result : FixtureResult}
    (h : (normalize fs settings false path).2 = .ok result) :
    ∃ place content bytes, fs.openFile path.toText = .ok (place, content) ∧
      Normalizes settings content bytes ∧
      fs.Rewritten (normalize fs settings false path).1 place bytes := by
  obtain ⟨place, content, text, normal, bytes, hopen, htext, hnormal, hbytes, -, hwrite⟩ :=
    normal_of_ok h
  obtain ⟨-, hnode⟩ := FileSystem.openFile_eq_ok_iff.mp hopen
  refine ⟨place, content, bytes, hopen, ⟨text, normal, htext, hnormal, hbytes⟩, ?_⟩
  rw [hwrite]
  exact FileSystem.rewritten_setContent hnode

theorem changed_check (fs : FileSystem) (settings : Settings) (path : Path) :
    (normalize fs settings true path).2.map FixtureResult.changed =
      (normalize fs settings false path).2.map FixtureResult.changed := by
  rcases normalize_cases fs settings path with ⟨_, -, hrun⟩ | ⟨_, _, _, -, -, hrun⟩ |
    ⟨_, _, _, _, _, -, -, -, -, hcheck, hwrite⟩
  · rw [hrun, hrun]
  · rw [hrun, hrun]
  · rw [hcheck, hwrite]
    rfl

/-- A check leaves all files alone. A run fails for the reasons there are, none of which is a normal
form that does not encode, and then leaves all files alone too. A run that succeeds replaces the
content of the file by its normal form, and nothing else. A check and a run fail alike, or say alike
whether the text changes. -/
theorem normalize_atomic (fs : FileSystem) (settings : Settings) (path : Path) :
    (normalize fs settings true path).1 = fs ∧
      (∀ check e, (normalize fs settings check path).2 = .error e ↔ Fails fs settings path e) ∧
      (∀ check e, (normalize fs settings check path).2 = .error e →
        (normalize fs settings check path).1 = fs ∧ e ≠ .surrogate) ∧
      (∀ result, (normalize fs settings false path).2 = .ok result →
        ∃ place content bytes, fs.openFile path.toText = .ok (place, content) ∧
          Normalizes settings content bytes ∧
          fs.Rewritten (normalize fs settings false path).1 place bytes) ∧
      (normalize fs settings true path).2.map FixtureResult.changed =
        (normalize fs settings false path).2.map FixtureResult.changed := by
  have hfails := normalize_eq_error_iff fs settings path
  refine ⟨normalize_check fs settings path, hfails, ?_, fun _ => rewritten_of_ok,
    changed_check fs settings path⟩
  intro check e he
  exact ⟨files_of_error he, ((hfails check e).mp he).ne_surrogate⟩

def onePath : Path := .ofText "a.json"

def oneFile (content : Bytes) : FileSystem where
  entries := [⟨"a.json", [], .file content⟩]
  workingDirectory := []
  distinct := List.nodup_singleton _
  named e he := by
    obtain rfl := List.mem_singleton.mp he
    show isName "a.json" = true
    decide
  nested e he := by
    obtain rfl := List.mem_singleton.mp he
    rfl

theorem openFile_oneFile (content : Bytes) :
    (oneFile content).openFile onePath.toText = .ok ([("a.json" : Text)], content) := by
  refine FileSystem.openFile_eq_ok_iff.mpr ⟨?_, rfl⟩
  rfl

def namedContent (name : Text) : Bytes := (Document.named name).flatMap Utf8.encodePoint

theorem textOf_namedContent : textOf (namedContent "--x") = .ok (Document.named "--x") :=
  textOf_of_write Document.write_namedTree

theorem normalize_oneFile :
    (normalize (oneFile (namedContent "--x")) .default false onePath).2 =
      .ok ⟨onePath, true, true⟩ := by
  obtain ⟨-, hrun⟩ := normalize_of_normal (openFile_oneFile _) textOf_namedContent
    Document.normalize_named (encode?_normal Document.normalize_named)
  rw [hrun]
  rfl

/-- A byte that is no UTF-8 stays where it is, a document is replaced by its normal form. -/
theorem normalize_atomic_oneFile :
    (normalize (oneFile [0xFF]) .default false onePath).1 = oneFile [0xFF] ∧
      (∃ place content bytes,
        (oneFile (namedContent "--x")).openFile onePath.toText = .ok (place, content) ∧
        Normalizes .default content bytes ∧
        (oneFile (namedContent "--x")).Rewritten
          (normalize (oneFile (namedContent "--x")) .default false onePath).1 place bytes) := by
  obtain ⟨-, hfails, hkept, -, -⟩ := normalize_atomic (oneFile [0xFF]) .default onePath
  obtain ⟨-, -, -, hwritten, -⟩ := normalize_atomic (oneFile (namedContent "--x")) .default onePath
  have hbroken : Fails (oneFile [0xFF]) .default onePath (.encoding ⟨0xFF, 0, 1, .startByte⟩) :=
    .content (openFile_oneFile _) (.encoding rfl)
  obtain ⟨hsame, -⟩ := hkept false _ ((hfails false _).mpr hbroken)
  exact ⟨hsame, hwritten _ normalize_oneFile⟩

end FluentFixtures.Fixture
