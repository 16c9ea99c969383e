import FluentFixtures.Config.File
import FluentFixtures.Yaml.Node
import FluentFixtures.Yaml.Plain

/-!
# The value of a configuration file

Nodes denote values. Keys of mappings are scalars, and a repeated key keeps its
first place and takes the last value. A file without a root is null. Without tags
there are no bytes, dates, moments, pairs and sets. `reader` is a reader of
configuration files for as much of YAML as this.

A graph is checked before it is read, from the root outwards in waves: the
collections of one wave are looked at in order, and the collections in them make
up the next. So of two faults the one that is less deep comes first.
-/

namespace FluentFixtures.Yaml

open Config (Value)

def Nodes.get? (nodes : Nodes) (name : Text) : Option Node :=
  (nodes.find? fun entry => entry.1 = name).map Prod.snd

/-! ## The check -/

/-- How far a graph is checked. -/
structure Check where
  /-- The names of the collections that have been met. -/
  met : List Text := []
  /-- The names of the signs `=` that are strings because they are keys. -/
  strings : List Text := []
  /-- The collections of the next wave, in reverse. -/
  next : List Node := []

namespace Check

/-- Meets a node that is an item, a value or the root. -/
def meet (nodes : Nodes) (c : Check) : Node → Except Error Check
  | .scalar mark plain text =>
    if plain then (Plain.value mark text).map fun _ => c else .ok c
  | .named name =>
    match nodes.get? name with
    | some (.scalar mark plain text) =>
      if plain && !c.strings.contains name then (Plain.value mark text).map fun _ => c else .ok c
    | some n => .ok (if c.met.contains name then c
        else { c with met := name :: c.met, next := n :: c.next })
    | none => .ok c
  | n => .ok { c with next := n :: c.next }

/-- Whether a scalar is the sign `=`. -/
def isValueSign : Node → Bool
  | .scalar _ plain text => plain && text = Plain.valueSign
  | _ => false

/-- Notes a key that is the sign `=` under a name. -/
def noteKey (nodes : Nodes) (c : Check) : Node → Check
  | .named name =>
    if (nodes.get? name).any isValueSign then { c with strings := name :: c.strings } else c
  | _ => c

/-- Meets a key of the mapping that starts at a mark. -/
def meetKey (nodes : Nodes) (start : Mark) (key : Node) : Except Error Unit :=
  let n :=
    match key with
    | .named name => (nodes.get? name).getD key
    | n => n
  match n with
  | .scalar mark plain text =>
    if plain && !isValueSign n then (Plain.value mark text).map fun _ => () else .ok ()
  | .seq mark _ => .error (Cause.noKey.within start mark)
  | .map mark _ => .error (Cause.noKey.within start mark)
  | .named _ => .ok ()

/-- Looks at what is in a collection. -/
def visit (nodes : Nodes) (c : Check) : Node → Except Error Check
  | .seq _ items => items.foldlM (meet nodes) c
  | .map start entries =>
    let c := (entries.map Prod.fst).foldl (noteKey nodes) c
    entries.foldlM (fun c entry => do
      meetKey nodes start entry.1
      meet nodes c entry.2) c
  | _ => .ok c

/-- Looks at the collections of a number of waves, which must be enough. -/
def waves (nodes : Nodes) (c : Check) : Nat → Except Error Unit
  | 0 => .ok ()
  | n + 1 =>
    if c.next.isEmpty then .ok ()
    else do
      let c ← c.next.reverse.foldlM (visit nodes) { c with next := [] }
      waves nodes c n

end Check

mutual

def Node.size : Node → Nat
  | .seq _ items => sizeOfItems items + 1
  | .map _ entries => sizeOfEntries entries + 1
  | _ => 1

def sizeOfItems : List Node → Nat
  | [] => 0
  | n :: rest => n.size + sizeOfItems rest

def sizeOfEntries : List (Node × Node) → Nat
  | [] => 0
  | (key, n) :: rest => key.size + n.size + sizeOfEntries rest

end

/-- Checks the nodes that can be reached from the root. -/
def Graph.check (g : Graph) : Except Error Unit :=
  match g.root with
  | none => .ok ()
  | some root => do
    let c ← Check.meet g.nodes {} root
    c.waves g.nodes (root.size + sizeOfItems (g.nodes.map Prod.snd))

/-! ## The value -/

/-- What a scalar denotes; what denotes nothing is a string. -/
def scalarValue (plain : Bool) (text : Text) : Scalar :=
  if plain then
    match Plain.value ⟨0, 0⟩ text with
    | .ok s => s
    | .error _ => .str text
  else .str text

/-- The key that a value is. -/
def keyOfValue : Value → Key
  | .scalar s => .scalar s
  | _ => .null

mutual

/-- What a node denotes, where names denote what is known of them. -/
def Node.value (known : Text → Value) : Node → Value
  | .scalar _ plain text => .scalar (scalarValue plain text)
  | .seq _ items => .list (valuesOfItems known items)
  | .map _ entries => .mapping (KeyMap.ofList (valuesOfEntries known entries))
  | .named name => known name

def valuesOfItems (known : Text → Value) : List Node → List Value
  | [] => []
  | n :: rest => n.value known :: valuesOfItems known rest

def valuesOfEntries (known : Text → Value) : List (Node × Node) → List (Key × Value)
  | [] => []
  | (key, n) :: rest =>
    (keyOfValue (key.value known), n.value known) :: valuesOfEntries known rest

end

/-- What is known of a node before what is in it. -/
def Node.outline : Node → Value
  | .seq .. => .cut .list
  | .map .. => .cut .mapping
  | _ => .scalar .null

def valueOfName (values : List (Text × Value)) (name : Text) : Value :=
  ((values.find? fun entry => entry.1 = name).map Prod.snd).getD (.scalar .null)

/-- The values of the nodes with names, down to a number of names on the way. -/
def Nodes.values (nodes : Nodes) : Nat → List (Text × Value)
  | 0 => nodes.map fun entry => (entry.1, entry.2.outline)
  | depth + 1 =>
    let known := nodes.values depth
    nodes.map fun entry => (entry.1, entry.2.value (valueOfName known))

/-- How many names more than there are nodes with names are followed before a value is cut off.
Settings look no deeper. -/
def namesBeyond : Nat := 3

/-- The value of a graph. More names on the way than there are nodes have one of them twice, so
only nodes that contain themselves are cut off. -/
def Graph.value (g : Graph) : Value :=
  match g.root with
  | none => .scalar .null
  | some root => root.value (valueOfName (g.nodes.values (g.nodes.length + namesBeyond)))

def read (bytes : Bytes) : Except Error Value := do
  let g ← Graph.ofTokens (Source.ofBytes bytes).tokens
  g.check
  .ok g.value

def reader : Config.Reader := fun path bytes => (read bytes).mapError (Error.raised path)

end FluentFixtures.Yaml
