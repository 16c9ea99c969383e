import FluentFixtures.Files.System

/-!
# Changes of a file system

`setContent` changes the content of one file and nothing else. The other changes
put new nodes where there is room for them and remove nodes, so that every entry
stays in a directory.
-/

namespace FluentFixtures.Files.FileSystem

def setContent (fs : FileSystem) (place : Location) (content : Bytes) : FileSystem where
  entries := fs.entries.map (Entry.replaceAt place content)
  workingDirectory := fs.workingDirectory
  distinct := by
    have hplace : Entry.place ∘ Entry.replaceAt place content = Entry.place :=
      funext (Entry.replaceAt_place place content)
    rw [List.map_map, hplace]
    exact fs.distinct
  named := by
    intro e' h
    obtain ⟨e, hmem, rfl⟩ := List.mem_map.1 h
    rw [Entry.replaceAt_name]
    exact fs.named e hmem
  nested := by
    intro e' h
    obtain ⟨e, hmem, rfl⟩ := List.mem_map.1 h
    rw [Entry.replaceAt_around, nodeAt_map_replaceAt, fs.nested e hmem]
    simp [Node.withContent]

/-- That a new node can be put at a name in a directory. -/
def HasRoom (fs : FileSystem) (around : Location) (name : Text) : Prop :=
  isName name = true ∧ fs.node? around = some .directory ∧ fs.node? (name :: around) = none

instance (fs : FileSystem) (around : Location) (name : Text) :
    Decidable (fs.HasRoom around name) :=
  inferInstanceAs (Decidable (_ ∧ _ ∧ _))

/-- A new entry does not change what is a directory. -/
theorem nodeAt_cons_directory {fs : FileSystem} {around place : Location} {name : Text}
    {node : Node} (h : fs.HasRoom around name)
    (hdir : nodeAt fs.entries place = some .directory) :
    nodeAt (⟨name, around, node⟩ :: fs.entries) place = some .directory := by
  cases place with
  | nil => rfl
  | cons other outer =>
    have hne : name :: around ≠ other :: outer := fun heq => by
      have hnone : nodeAt fs.entries (name :: around) = none := h.2.2
      rw [← heq, hnone] at hdir
      cases hdir
    rw [nodeAt_cons, List.find?_cons_of_neg (by simpa [Entry.place] using hne)]
    exact hdir

/-- Puts a node at a name in a directory that has room for it. -/
def add (fs : FileSystem) (around : Location) (name : Text) (node : Node) : FileSystem :=
  if h : fs.HasRoom around name then
    { entries := ⟨name, around, node⟩ :: fs.entries
      workingDirectory := fs.workingDirectory
      distinct := List.nodup_cons.2 ⟨nodeAt_eq_none_iff.1 h.2.2, fs.distinct⟩
      named := List.forall_mem_cons.2 ⟨h.1, fs.named⟩
      nested := List.forall_mem_cons.2
        ⟨nodeAt_cons_directory h h.2.1, fun e hmem => nodeAt_cons_directory h (fs.nested e hmem)⟩ }
  else fs

def removeAt (fs : FileSystem) (place : Location) : FileSystem where
  entries := fs.entries.filter fun e => !place.isSuffixOf e.place
  workingDirectory := fs.workingDirectory
  distinct := fs.distinct.sublist (List.filter_sublist.map _)
  named e h := fs.named e (List.mem_filter.1 h).1
  nested := by
    intro e h
    obtain ⟨hmem, hout⟩ := List.mem_filter.1 h
    rw [nodeAt_filter, fs.nested e hmem]
    intro hsuffix
    have hgone : place.isSuffixOf e.place = true :=
      List.isSuffixOf_iff_suffix.2 (hsuffix.trans (List.suffix_cons e.name e.around))
    rw [hgone] at hout
    cases hout

/-- Follows one name, and makes a directory where nothing is. -/
def enter (state : FileSystem × Location) (name : Text) :
    Except AccessReason (FileSystem × Location) :=
  let (fs, place) := state
  match fs.step place name with
  | .ok place => .ok (fs, place)
  | .error .notFound => .ok (fs.add place name .directory, name :: place)
  | .error reason => .error reason

/-- Follows names from the start of a path, and makes the directories that are missing. -/
def enterAll (fs : FileSystem) (path : Path) : Except AccessReason (FileSystem × Location) :=
  path.names.foldlM enter (fs, if path.absolute then [] else fs.workingDirectory)

def makeDirectory (fs : FileSystem) (path : Text) : Except AccessError FileSystem :=
  ((fs.enterAll (Path.ofText path)).mapError (.refused · path)).map Prod.fst

def writeFile (fs : FileSystem) (path : Text) (content : Bytes) : Except AccessError FileSystem :=
  let p := Path.ofText path
  match fs.enterAll { p with names := p.names.dropLast } with
  | .error reason => .error (.refused reason path)
  | .ok (fs, place) =>
    match fs.node? (p.name :: place) with
    | some .directory => .error (.refused .isDirectory path)
    | some (.file _) => .ok (fs.setContent (p.name :: place) content)
    | none => .ok (fs.add place p.name (.file content))

/-- Removes a file, or a directory with all below it. -/
def remove (fs : FileSystem) (path : Text) : Except AccessError FileSystem :=
  (fs.resolve path).map fs.removeAt

/-- The file system seen from another directory. -/
def changeDirectory (fs : FileSystem) (path : Text) : Except AccessError FileSystem :=
  (fs.resolve path).map fun place => { fs with workingDirectory := place }

end FluentFixtures.Files.FileSystem
