import FluentFixtures.Files.Path
import FluentFixtures.Text.Utf8

/-!
# Entries of directories

Directories and regular files are the nodes of a file system. An `Entry` is a
node with its name and the place it is in; `nodeAt` looks for the node at a
place in a list of entries. The lemmas say what is found after a change.
-/

namespace FluentFixtures.Files

/-- A place: the names on the way to the root, innermost first. -/
abbrev Location := List Text

inductive Node where
  | file (content : Bytes)
  | directory
  deriving DecidableEq, Repr

namespace Node

def isDirectory : Node → Bool
  | directory => true
  | file _ => false

def isFile : Node → Bool
  | file _ => true
  | directory => false

def withContent (content : Bytes) : Node → Node
  | file _ => file content
  | directory => directory

end Node

/-- The longest name, in bytes of UTF-8. -/
def nameLimit : Nat := 255

def byteSize (t : Text) : Nat := (t.flatMap Utf8.encodePoint).length

/-- Whether a node can have the name. -/
def isName (t : Text) : Bool :=
  !Path.saysNothing t && t ≠ Path.up && !t.contains Path.separator && !t.contains 0 &&
    byteSize t ≤ nameLimit

structure Entry where
  name : Text
  around : Location
  node : Node
  deriving DecidableEq, Repr

def Entry.place (e : Entry) : Location := e.name :: e.around

/-- The node of the entry at a place; the root is a directory without an entry. -/
def nodeAt (entries : List Entry) (place : Location) : Option Node :=
  if place.isEmpty then some .directory
  else (entries.find? fun e => e.place = place).map Entry.node

@[simp] theorem nodeAt_nil (entries : List Entry) : nodeAt entries [] = some .directory := rfl

theorem nodeAt_cons (entries : List Entry) (name : Text) (around : Location) :
    nodeAt entries (name :: around) =
      (entries.find? fun e => e.place = name :: around).map Entry.node := rfl

def Entry.replaceAt (place : Location) (content : Bytes) (e : Entry) : Entry :=
  if e.place = place then { e with node := e.node.withContent content } else e

@[simp] theorem Entry.replaceAt_place (place : Location) (content : Bytes) (e : Entry) :
    (e.replaceAt place content).place = e.place := by
  unfold replaceAt
  split <;> rfl

@[simp] theorem Entry.replaceAt_name (place : Location) (content : Bytes) (e : Entry) :
    (e.replaceAt place content).name = e.name := by
  unfold replaceAt
  split <;> rfl

@[simp] theorem Entry.replaceAt_around (place : Location) (content : Bytes) (e : Entry) :
    (e.replaceAt place content).around = e.around := by
  unfold replaceAt
  split <;> rfl

theorem Entry.replaceAt_node (place : Location) (content : Bytes) (e : Entry) :
    (e.replaceAt place content).node =
      if e.place = place then e.node.withContent content else e.node := by
  unfold replaceAt
  split <;> rfl

theorem nodeAt_map_replaceAt (entries : List Entry) (place : Location) (content : Bytes)
    (other : Location) :
    nodeAt (entries.map (Entry.replaceAt place content)) other =
      (nodeAt entries other).map fun node =>
        if other = place then node.withContent content else node := by
  cases other with
  | nil => simp [Node.withContent]
  | cons name around =>
    have hplace : ((fun e : Entry => decide (e.place = name :: around)) ∘
        Entry.replaceAt place content) = fun e => decide (e.place = name :: around) :=
      funext fun e => by simp
    simp only [nodeAt_cons, List.find?_map, hplace, Option.map_map]
    cases hfind : entries.find? fun e => decide (e.place = name :: around) with
    | none => rfl
    | some e =>
      have he : e.place = name :: around := by simpa using List.find?_some hfind
      simp [Entry.replaceAt_node, he]

theorem nodeAt_eq_none_iff {entries : List Entry} {name : Text} {around : Location} :
    nodeAt entries (name :: around) = none ↔ name :: around ∉ entries.map Entry.place := by
  simp [nodeAt_cons, List.find?_eq_none]

/-- Places that are not below a place keep their nodes when it is emptied. -/
theorem nodeAt_filter {entries : List Entry} {gone place : Location} (h : ¬ gone <:+ place) :
    nodeAt (entries.filter fun e => !gone.isSuffixOf e.place) place = nodeAt entries place := by
  cases place with
  | nil => rfl
  | cons name around =>
    have hkept : (fun e : Entry => decide ((!gone.isSuffixOf e.place) = true ∧
        decide (e.place = name :: around) = true)) =
        fun e : Entry => decide (e.place = name :: around) := by
      funext e
      by_cases he : e.place = name :: around
      · have hgone : gone.isSuffixOf (name :: around) = false := by
          rw [← Bool.not_eq_true, List.isSuffixOf_iff_suffix]
          exact h
        simp [he, hgone]
      · simp [he]
    rw [nodeAt_cons, nodeAt_cons, List.find?_filter, hkept]

end FluentFixtures.Files
