import FluentFixtures.Proofs.Files.Order
import FluentFixtures.Proofs.Files.Path

/-!
# What a search finds

A pattern that is one name finds files that are in the directory itself, each
once and in the order of their names: `fileIn_of_search`.
-/

namespace FluentFixtures.Files

/-! ## Patterns of one name -/

/-- Whether a text is a pattern of one name, without brackets. -/
structure Pattern.OneName (t : Text) : Prop where
  ne_nil : t ≠ []
  ne_here : t ≠ Path.here
  ne_up : t ≠ Path.up
  short : byteSize t ≤ nameLimit
  separator_not_mem : Path.separator ∉ t
  bracket_not_mem : CodePoint.ofChar '[' ∉ t
  stars_apart : Component.hasAdjacentStars t = false

/-- Whether a component stands for a name. -/
def Component.Accepts : Component → Text → Prop
  | .name given, found => found = given
  | .wildcard pieces, found => Piece.matchesName pieces found = true
  | .anyDepth, _ => False

/-- The component that a pattern of one name spells. -/
def Pattern.component (t : Text) : Component :=
  if t.any Component.isWildcard then .wildcard (Piece.ofText t) else .name t

variable {t : Text}

theorem Pattern.component_eq_name {given : Text} (h : component t = .name given) : given = t := by
  unfold component at h
  split at h <;> cases h
  rfl

theorem Pattern.component_ne_anyDepth (t : Text) : component t ≠ .anyDepth := by
  unfold component
  split <;> nofun

theorem Pattern.OneName.saysNothing (h : OneName t) : Path.saysNothing t = false := by
  simp [Path.saysNothing, h.ne_nil, h.ne_here]

theorem Component.ofText_of_oneName (h : Pattern.OneName t) :
    ofText t = .ok (Pattern.component t) := by
  have hstars : t ≠ [star, star] := by
    rintro rfl
    exact absurd h.stars_apart (by decide)
  rw [ofText, if_neg hstars, h.stars_apart, Pattern.component]
  cases t.any isWildcard <;> rfl

theorem Pattern.ofText_of_oneName (h : OneName t) :
    ofText t = .ok { components := [component t], directoriesOnly := false } := by
  have habsolute : Path.isAbsolute t = false := by
    have hhead : t.head? ≠ some Path.separator := fun hhead =>
      h.separator_not_mem (List.mem_of_head? hhead)
    simpa [Path.isAbsolute] using hhead
  have hpath : Path.ofText t = ⟨false, [t]⟩ := by
    rw [Path.ofText, habsolute, Text.splitOn_of_not_mem h.separator_not_mem]
    simp [h.saysNothing]
  have hlast : t.getLast? ≠ some Path.separator := fun hlast =>
    h.separator_not_mem (List.mem_of_getLast? hlast)
  simp [ofText, hpath, hlast, Component.ofText_of_oneName h, pure, Except.pure, bind, Except.bind]

/-! ## Names that are found -/

theorem facts_of_isName {name : Text} (h : isName name = true) :
    Path.saysNothing name = false ∧ name ≠ Path.up ∧ Path.separator ∉ name := by
  simp only [isName, Bool.and_eq_true, Bool.not_eq_true'] at h
  obtain ⟨⟨⟨⟨hsaid, hup⟩, hseparator⟩, -⟩, -⟩ := h
  exact ⟨hsaid, by simpa using hup, by simpa using hseparator⟩

namespace FileSystem

variable {fs : FileSystem} {path : Text} {p base : Path} {place : Location} {e : AccessError}

theorem place?_eq_ok_some_iff : fs.place? path = .ok (some place) ↔ fs.resolve path = .ok place := by
  unfold place?
  cases fs.resolve path with
  | ok found => simp
  | error e =>
    cases e with
    | refused reason path => cases reason <;> simp
    | nullCharacter => simp

theorem lookUp_eq_ok_some {node : Node} (h : fs.lookUp path = .ok (some node)) :
    ∃ place, fs.resolve path = .ok place ∧ fs.node? place = some node := by
  obtain ⟨found, hfound, hnode⟩ := map_eq_ok_iff.mp h
  cases found with
  | none => cases hnode
  | some place => exact ⟨place, place?_eq_ok_some_iff.mp hfound, hnode⟩

theorem isFile_eq_ok_true (h : fs.isFile p = .ok true) : ∃ place content,
    fs.resolve p.toText = .ok place ∧ fs.node? place = some (.file content) := by
  obtain ⟨found, hfound, hfile⟩ := map_eq_ok_iff.mp h
  cases found with
  | none => cases hfile
  | some node =>
    cases node with
    | directory => cases hfile
    | file content =>
      obtain ⟨place, hplace, hnode⟩ := lookUp_eq_ok_some hfound
      exact ⟨place, content, hplace, hnode⟩

theorem select_one (component : Component) :
    fs.select false [component] base =
      match component with
      | .name name => fs.existing false (base.child name)
      | .wildcard pieces => fs.matching false pieces base
      | .anyDepth => fs.directories base := by
  have hrest (next : List Path) :
      next.mapM (fs.select false []) = .ok (next.map fun p => [p]) := List.mapM_pure
  have hflatten (next : List Path) : (next.map fun p => [p]).flatten = next := by
    induction next with
    | nil => rfl
    | cons p next ih => exact congrArg (p :: ·) ih
  have hlast (result : Except AccessError (List Path)) : (do
      let next ← result
      let found ← next.mapM (fs.select false [])
      .ok found.flatten) = result := by
    cases result with
    | error e => rfl
    | ok next =>
      show (do let found ← next.mapM (fs.select false []); .ok found.flatten) = _
      rw [hrest]
      exact congrArg Except.ok (hflatten next)
  unfold select
  cases component <;> exact hlast _

theorem mem_select (ht : Pattern.OneName t) {found : List Path}
    (h : fs.select false [Pattern.component t] base = .ok found) (hp : p ∈ found) :
    ∃ name, p = base.child name ∧ (Pattern.component t).Accepts name ∧
      Path.saysNothing name = false ∧ name ≠ Path.up ∧ Path.separator ∉ name := by
  rw [select_one] at h
  cases hcomponent : Pattern.component t with
  | name given =>
    rw [hcomponent] at h
    obtain ⟨node, -, rfl⟩ := map_eq_ok_iff.mp h
    obtain rfl := Pattern.component_eq_name hcomponent
    cases node with
    | none => cases hp
    | some node =>
      have hp' : p = base.child given := by simpa using hp
      exact ⟨given, hp', rfl, ht.saysNothing, ht.ne_up, ht.separator_not_mem⟩
  | wildcard pieces =>
    rw [hcomponent] at h
    obtain ⟨place, -, rfl⟩ := map_eq_ok_iff.mp h
    cases place with
    | none => cases hp
    | some place =>
      obtain ⟨entry, hentry, hchild⟩ := List.mem_filterMap.mp hp
      obtain ⟨hmem, -⟩ := List.mem_filter.mp hentry
      split at hchild
      · next hmatches =>
        cases hchild
        have hname := facts_of_isName (fs.named entry hmem)
        rw [Bool.and_eq_true] at hmatches
        exact ⟨entry.name, rfl, hmatches.2, hname⟩
      · cases hchild
  | anyDepth => exact absurd hcomponent (Pattern.component_ne_anyDepth t)

/-! ## Searching -/

/-- Whether a path leads to a file that is in a directory itself, under its last name. -/
def FileIn (fs : FileSystem) (base : Path) (around : Location) (p : Path) : Prop :=
  ∃ name content, p = base.child name ∧ fs.resolve p.toText = .ok (name :: around) ∧
    fs.node? (name :: around) = some (.file content)

theorem FileIn.exists_entry {around : Location} (h : fs.FileIn base around p) :
    ∃ e ∈ fs.entries, e.node.isFile = true ∧ p.name = e.name := by
  obtain ⟨name, content, rfl, -, hnode⟩ := h
  have hentry : nodeAt fs.entries (name :: around) = some (.file content) := hnode
  rw [nodeAt_cons] at hentry
  obtain ⟨e, hfind, hfile⟩ := Option.map_eq_some_iff.mp hentry
  have hfound := List.find?_some hfind
  have hplace : e.place = name :: around := of_decide_eq_true hfound
  refine ⟨e, List.mem_of_find?_eq_some hfind, ?_, ?_⟩
  · rw [hfile]
    rfl
  · rw [Path.name_child, (List.cons.inj hplace).1]

theorem fileIn_of_isFile (ht : Pattern.OneName t) (hbase : base.Clean)
    (hplace : fs.resolve base.toText = .ok place) {found : List Path}
    (hselect : fs.select false [Pattern.component t] base = .ok found) (hp : p ∈ found)
    (hfile : fs.isFile p = .ok true) :
    fs.FileIn base place p ∧ (Pattern.component t).Accepts p.name := by
  obtain ⟨name, rfl, haccepts, hsaid, hup, hname⟩ := mem_select ht hselect hp
  obtain ⟨target, content, htarget, hnode⟩ := isFile_eq_ok_true hfile
  have hstep := step_of_resolve hbase hsaid hname hplace htarget
  obtain rfl := eq_cons_of_step hup hstep hnode
  rw [Path.name_child]
  exact ⟨⟨name, content, rfl, htarget, hnode⟩, haccepts⟩

theorem pairwise_sorted_of_fileIn {files : List Path} (h : ∀ p ∈ files, fs.FileIn base place p) :
    (sorted files).Pairwise fun p q => Text.compare p.name q.name = .lt := by
  have hstart : ∀ p ∈ files, ∀ q ∈ files, p.absolute = q.absolute := by
    intro p hp q hq
    obtain ⟨_, _, rfl, -⟩ := h p hp
    obtain ⟨_, _, rfl, -⟩ := h q hq
    rfl
  refine (pairwise_sorted hstart).imp_of_mem ?_
  intro p q hp hq hlt
  obtain ⟨_, _, rfl, -⟩ := h p (mem_sorted.mp hp)
  obtain ⟨_, _, rfl, -⟩ := h q (mem_sorted.mp hq)
  rw [Path.compare_child] at hlt
  rwa [Path.name_child, Path.name_child]

/-- The files among what a pattern of one name stands for. -/
def selectFiles (fs : FileSystem) (t : Text) (base : Path) : Except AccessError (List Path) := do
  let found ← fs.select false [Pattern.component t] base
  found.filterM fs.isFile

section Search

variable {directory : Text} (ht : Pattern.OneName t)

include ht

theorem ofValue_of_oneName : Pattern.ofValue (.scalar (.str t)) =
    .ok { components := [Pattern.component t], directoriesOnly := false } := by
  have hempty : t.isEmpty = false := by simpa using ht.ne_nil
  rw [Pattern.ofValue, Config.Value.isEmpty, hempty, if_neg Bool.false_ne_true,
    Pattern.ofText_of_oneName ht]

theorem search_of_error (h : fs.lookUp (Path.ofText directory).toText = .error e) :
    fs.search directory (.scalar (.str t)) = .error (.access e) := by
  simp only [search, ofValue_of_oneName ht, h, Except.mapError, bind, Except.bind]

theorem search_of_other {node : Option Node}
    (h : fs.lookUp (Path.ofText directory).toText = .ok node) (hnode : node ≠ some .directory) :
    fs.search directory (.scalar (.str t)) = .ok [] := by
  simp only [search, ofValue_of_oneName ht, h, Except.mapError, bind, Except.bind]

theorem search_of_directory
    (h : fs.lookUp (Path.ofText directory).toText = .ok (some .directory)) :
    fs.search directory (.scalar (.str t)) =
      ((fs.selectFiles t (Path.ofText directory)).map sorted).mapError .access := by
  simp only [search, ofValue_of_oneName ht, h, selectFiles, Except.mapError, bind, Except.bind]
  cases fs.select false [Pattern.component t] (Path.ofText directory) with
  | error e => rfl
  | ok found =>
    simp only
    cases found.filterM fs.isFile <;> rfl

end Search

/-- A pattern of one name finds files of a directory that it accepts, strictly upwards. -/
theorem fileIn_of_search (ht : Pattern.OneName t) {directory : Text} {paths : List Path}
    (h : fs.search directory (.scalar (.str t)) = .ok paths) :
    ∃ around, (paths.Pairwise fun p q => Text.compare p.name q.name = .lt) ∧
      ∀ p ∈ paths, fs.FileIn (Path.ofText directory) around p ∧
        (Pattern.component t).Accepts p.name := by
  cases hfound : fs.lookUp (Path.ofText directory).toText with
  | error e => cases (search_of_error ht hfound).symm.trans h
  | ok node =>
    by_cases hnode : node = some .directory
    · subst hnode
      obtain ⟨place, hplace, -⟩ := lookUp_eq_ok_some hfound
      rw [search_of_directory ht hfound, mapError_eq_ok_iff, map_eq_ok_iff] at h
      obtain ⟨files, hfiles, rfl⟩ := h
      obtain ⟨found, hselect, hfilter⟩ := bind_eq_ok_iff.mp hfiles
      have hin : ∀ p ∈ files, fs.FileIn (Path.ofText directory) place p ∧
          (Pattern.component t).Accepts p.name := by
        intro p hp
        obtain ⟨hmem, hfile⟩ := (mem_filterM_iff hfilter).mp hp
        exact fileIn_of_isFile ht (Path.clean_ofText directory) hplace hselect hmem hfile
      exact ⟨place, pairwise_sorted_of_fileIn fun p hp => (hin p hp).1,
        fun p hp => hin p (mem_sorted.mp hp)⟩
    · obtain rfl := Except.ok.inj ((search_of_other ht hfound hnode).symm.trans h)
      exact ⟨[], List.Pairwise.nil, nofun⟩

end FileSystem

end FluentFixtures.Files
