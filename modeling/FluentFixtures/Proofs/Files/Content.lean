import FluentFixtures.Files.Change
import Mathlib.Data.List.Nodup
import Mathlib.Tactic.Common

/-!
# The content of one file

A new content of a file shows at the place of the file and nowhere else:
`rewritten_setContent`. Where paths lead does not depend on what files hold, so
other paths lead to the same files with the same content as before.
-/

namespace FluentFixtures.Files.FileSystem

variable {fs : FileSystem} {place other : Location} {content old : Bytes}

/-! ## Places -/

theorem node?_setContent (fs : FileSystem) (place : Location) (content : Bytes)
    (other : Location) : (fs.setContent place content).node? other =
      (fs.node? other).map fun node => if other = place then node.withContent content else node :=
  nodeAt_map_replaceAt fs.entries place content other

theorem node?_setContent_self (h : fs.node? place = some (.file old)) :
    (fs.setContent place content).node? place = some (.file content) := by
  rw [node?_setContent, h, Option.map_some, if_pos rfl]
  rfl

theorem node?_setContent_of_ne (h : other ≠ place) :
    (fs.setContent place content).node? other = fs.node? other := by
  rw [node?_setContent]
  simp only [if_neg h, Option.map_id']

/-- An entry is what is at its place, since no two are at one place. -/
theorem node?_of_mem {e : Entry} (he : e ∈ fs.entries) : fs.node? e.place = some e.node := by
  show nodeAt fs.entries (e.name :: e.around) = some e.node
  rw [nodeAt_cons]
  cases hfind : fs.entries.find? fun found => found.place = e.name :: e.around with
  | none => exact absurd (List.find?_eq_none.mp hfind e he) (by simp [Entry.place])
  | some found =>
    have hplace : found.place = e.name :: e.around := by simpa using List.find?_some hfind
    rw [List.inj_on_of_nodup_map fs.distinct (List.mem_of_find?_eq_some hfind) he hplace]
    rfl

theorem setContent_eq_self (h : fs.node? place = some (.file content)) :
    fs.setContent place content = fs := by
  have hentries : fs.entries.map (Entry.replaceAt place content) = fs.entries := by
    refine (List.map_congr_left ?_).trans (List.map_id _)
    intro e he
    unfold Entry.replaceAt
    split
    · next hplace =>
      have hnode : e.node = .file content := by
        rw [← hplace, node?_of_mem he] at h
        exact Option.some.inj h
      rw [hnode]
      show { e with node := .file content } = e
      rw [← hnode]
    · rfl
  obtain ⟨entries, workingDirectory, distinct, named, nested⟩ := fs
  unfold setContent
  congr

theorem places_setContent (fs : FileSystem) (place : Location) (content : Bytes) :
    (fs.setContent place content).entries.map Entry.place = fs.entries.map Entry.place := by
  have hplace : Entry.place ∘ Entry.replaceAt place content = Entry.place :=
    funext (Entry.replaceAt_place place content)
  show (fs.entries.map (Entry.replaceAt place content)).map Entry.place = _
  rw [List.map_map, hplace]

/-- File systems with entries at the same places are the same if the same nodes are there. -/
theorem eq_of_node? {fs' : FileSystem}
    (hplaces : fs'.entries.map Entry.place = fs.entries.map Entry.place)
    (hnode : ∀ place, fs'.node? place = fs.node? place)
    (hdirectory : fs'.workingDirectory = fs.workingDirectory) : fs' = fs := by
  have hentries : fs'.entries = fs.entries := by
    have hlength : fs'.entries.length = fs.entries.length := by
      simpa using congrArg List.length hplaces
    refine List.ext_getElem hlength fun i h' h => ?_
    have hplace : fs'.entries[i].place = fs.entries[i].place := by
      have hat : (fs'.entries.map Entry.place)[i]? = (fs.entries.map Entry.place)[i]? := by
        rw [hplaces]
      simpa [h, h'] using hat
    have hsame : some fs'.entries[i].node = some fs.entries[i].node := by
      rw [← node?_of_mem (List.getElem_mem h'), ← node?_of_mem (List.getElem_mem h), hplace, hnode]
    obtain ⟨hname, haround⟩ := List.cons.inj hplace
    cases hentry : fs'.entries[i]
    cases hother : fs.entries[i]
    simp_all
  cases fs
  cases fs'
  congr

/-- Whether the content of the file at a place is all that differs after a change. -/
structure Rewritten (fs after : FileSystem) (place : Location) (content : Bytes) : Prop where
  here : after.node? place = some (.file content)
  elsewhere : ∀ other, other ≠ place → after.node? other = fs.node? other
  workingDirectory : after.workingDirectory = fs.workingDirectory

theorem rewritten_setContent (h : fs.node? place = some (.file old)) :
    fs.Rewritten (fs.setContent place content) place content where
  here := node?_setContent_self h
  elsewhere _ := node?_setContent_of_ne
  workingDirectory := rfl

/-! ## Paths -/

/-- A name is followed by what is a directory and what exists, whatever files hold. -/
theorem step_setContent (fs : FileSystem) (place : Location) (content : Bytes) :
    (fs.setContent place content).step = fs.step := by
  funext start name
  have hexists : ((fs.setContent place content).node? (name :: start)).isSome =
      (fs.node? (name :: start)).isSome := by
    rw [node?_setContent, Option.isSome_map]
  unfold step
  rw [hexists, node?_setContent]
  cases fs.node? start with
  | none => rfl
  | some node =>
    rw [Option.map_some]
    by_cases hstart : start = place
    · rw [if_pos hstart]
      cases node <;> rfl
    · rw [if_neg hstart]

theorem resolve_setContent (fs : FileSystem) (place : Location) (content : Bytes) (path : Text) :
    (fs.setContent place content).resolve path = fs.resolve path := by
  unfold resolve locate
  rw [step_setContent]
  rfl

theorem openFile_eq_ok_iff {path : Text} : fs.openFile path = .ok (place, content) ↔
    fs.resolve path = .ok place ∧ fs.node? place = some (.file content) := by
  unfold openFile
  constructor
  · intro h
    split at h
    · cases h
    · next found hresolve =>
      split at h
      · next hnode =>
        cases h
        exact ⟨hresolve, hnode⟩
      · cases h
      · cases h
  · rintro ⟨hresolve, hnode⟩
    rw [hresolve]
    simp only [hnode]

theorem openFile_setContent_self {path : Text} (h : fs.openFile path = .ok (place, old)) :
    (fs.setContent place content).openFile path = .ok (place, content) := by
  rw [openFile_eq_ok_iff] at h ⊢
  rw [resolve_setContent]
  exact ⟨h.1, node?_setContent_self h.2⟩

theorem openFile_setContent_of_ne {path : Text} (h : fs.resolve path ≠ .ok place) :
    (fs.setContent place content).openFile path = fs.openFile path := by
  unfold openFile
  rw [resolve_setContent]
  cases hresolve : fs.resolve path with
  | error e => rfl
  | ok found =>
    have hne : found ≠ place := by
      rintro rfl
      exact h hresolve
    simp only [node?_setContent_of_ne hne]

end FluentFixtures.Files.FileSystem
