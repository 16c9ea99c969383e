import FluentFixtures.Proofs.Faults
import FluentFixtures.Proofs.Files.Content
import FluentFixtures.Proofs.Text.Lines

/-!
# Where paths lead

The names of a path are what its text is cut into, so a path leads where its
last name leads from where the path without it leads: `step_of_resolve`. A file
in a directory is where its name leads from there: `eq_cons_of_step`.
-/

namespace FluentFixtures.Files

namespace Path

/-- Whether each name says something and is one name. -/
def Clean (p : Path) : Prop := ∀ name ∈ p.names, saysNothing name = false ∧ separator ∉ name

variable {p : Path} {name : Text}

theorem clean_ofText (t : Text) : (ofText t).Clean := by
  intro name hname
  obtain ⟨hmem, hsaid⟩ := List.mem_filter.mp hname
  exact ⟨by simpa using hsaid, Text.not_mem_of_mem_splitOn hmem⟩

theorem Clean.child (h : p.Clean) (hsaid : saysNothing name = false) (hname : separator ∉ name) :
    (p.child name).Clean := by
  intro other hother
  rcases List.mem_append.mp hother with hother | hother
  · exact h other hother
  · rw [List.mem_singleton.mp hother]
    exact ⟨hsaid, hname⟩

theorem isAbsolute_toText (h : p.Clean) : isAbsolute p.toText = p.absolute := by
  obtain ⟨absolute, names⟩ := p
  cases absolute with
  | true => rfl
  | false =>
    cases names with
    | nil => rfl
    | cons name names =>
      obtain ⟨hsaid, hname⟩ := h name List.mem_cons_self
      cases name with
      | nil => cases hsaid
      | cons c rest =>
        have hhead : (toText ⟨false, (c :: rest) :: names⟩).head? = some c := by
          cases names <;> rfl
        rw [isAbsolute, hhead]
        have hc : c ≠ separator := fun e => hname (e ▸ List.mem_cons_self)
        simpa using hc

theorem toText_child (h : p.names ≠ []) : (p.child name).toText = p.toText ++ separator :: name := by
  have hjoin := Text.joinWith_concat [separator] name h
  have hnames : p.names.isEmpty = false := by simpa using h
  have hchild : (p.names ++ [name]).isEmpty = false := by simp
  unfold toText child
  simp only [hjoin, hnames, hchild]
  cases p.absolute <;> simp

end Path

namespace FileSystem

variable {fs : FileSystem} {start d place : Location} {p : Path} {name : Text} {content : Bytes}

/-- A name that says nothing only asks for a directory, as any name does. -/
theorem step_bind_of_saysNothing {nothing : Text} (h : Path.saysNothing nothing = true) :
    (fs.step start nothing).bind (fun place => fs.step place name) = fs.step start name := by
  unfold step
  cases hnode : fs.node? start with
  | none => rfl
  | some node =>
    cases node with
    | file content => rfl
    | directory =>
      simp only [h, if_true, Except.bind, hnode]

/-- The names of a path lead to where its last name leads from where the others lead to. -/
theorem foldlM_step_child (hname : Path.separator ∉ name) (hstart : p.absolute = true → start = []) :
    (Text.splitOn Path.separator (p.child name).toText).foldlM fs.step start =
      ((Text.splitOn Path.separator p.toText).foldlM fs.step start).bind
        fun place => fs.step place name := by
  have hlast : Text.splitOn Path.separator name = [name] := Text.splitOn_of_not_mem hname
  by_cases hnames : p.names = []
  · -- Without names the text is that of the root or of the directory itself.
    obtain ⟨absolute, names⟩ := p
    obtain rfl : names = [] := hnames
    cases absolute with
    | true =>
      obtain rfl := hstart rfl
      have htext : (Path.child ⟨true, []⟩ name).toText = [] ++ Path.separator :: name := rfl
      rw [htext, Text.splitOn_append_cons, hlast]
      have hroot : fs.step [] [] = .ok [] := rfl
      have hbase : Text.splitOn Path.separator (Path.toText ⟨true, []⟩) = [[], []] := by decide
      rw [hbase]
      simp only [Text.splitOn, List.singleton_append, List.foldlM_cons, List.foldlM_nil, hroot,
        bind_pure]
      rfl
    | false =>
      have hbase : Text.splitOn Path.separator (Path.toText ⟨false, []⟩) = [Path.here] := by decide
      have hhere : Path.saysNothing Path.here = true := by decide
      have hchild : (Path.child ⟨false, []⟩ name).toText = name := rfl
      rw [hchild, hlast, hbase, List.foldlM_cons, List.foldlM_cons]
      simpa using (step_bind_of_saysNothing hhere).symm
  · rw [Path.toText_child hnames, Text.splitOn_append_cons, hlast, List.foldlM_append]
    simp only [List.foldlM_cons, List.foldlM_nil, bind_pure]
    rfl

theorem resolve_eq_ok_iff {path : Text} : fs.resolve path = .ok place ↔
    0 ∉ path ∧ path ≠ [] ∧ byteSize path ≤ pathLimit ∧
      (Text.splitOn Path.separator path).foldlM fs.step
        (if Path.isAbsolute path then [] else fs.workingDirectory) = .ok place := by
  unfold resolve
  by_cases hnull : 0 ∈ path
  · simp [hnull]
  · have hcontains : path.contains 0 = false := by simpa using hnull
    rw [hcontains, if_neg Bool.false_ne_true, mapError_eq_ok_iff, locate]
    by_cases hempty : path = []
    · simp [hempty]
    · by_cases hlong : byteSize path > pathLimit
      · simp [hempty, hlong, Nat.not_le.mpr hlong]
      · simp [hnull, hempty, hlong, Nat.not_lt.mp hlong]

/-- A path leads where its last name leads from where the others lead to. -/
theorem step_of_resolve (hp : p.Clean) (hsaid : Path.saysNothing name = false)
    (hname : Path.separator ∉ name) (hbase : fs.resolve p.toText = .ok d)
    (h : fs.resolve (p.child name).toText = .ok place) : fs.step d name = .ok place := by
  obtain ⟨-, -, -, hbase⟩ := resolve_eq_ok_iff.mp hbase
  obtain ⟨-, -, -, h⟩ := resolve_eq_ok_iff.mp h
  rw [Path.isAbsolute_toText hp] at hbase
  rw [Path.isAbsolute_toText (hp.child hsaid hname), foldlM_step_child hname] at h
  · have hstart : (p.child name).absolute = p.absolute := rfl
    rw [hstart, hbase] at h
    exact h
  · intro habsolute
    exact if_pos habsolute

theorem step_cases (h : fs.step d name = .ok place) : fs.node? d = some .directory ∧
    (place = d ∨ name = Path.up ∨ place = name :: d) := by
  unfold step at h
  split at h
  · cases h
  · cases h
  · next hdirectory =>
    refine ⟨hdirectory, ?_⟩
    split at h
    · cases h
      exact .inl rfl
    split at h
    · next hup => exact .inr (.inl hup)
    split at h
    · cases h
    split at h
    · cases h
      exact .inr (.inr rfl)
    · cases h

theorem eq_cons_of_step (hname : name ≠ Path.up) (h : fs.step d name = .ok place)
    (hfile : fs.node? place = some (.file content)) : place = name :: d := by
  obtain ⟨hdirectory, rfl | hup | hplace⟩ := step_cases h
  · rw [hdirectory] at hfile
    cases hfile
  · exact absurd hup hname
  · exact hplace

end FileSystem

end FluentFixtures.Files
