import FluentFixtures.Proofs.Config.Reader
import FluentFixtures.Proofs.Faults
import FluentFixtures.Yaml.Value

/-!
# Keys of a configuration file

A repeated key keeps its first place, so no two keys of the mapping of a file are
equal: `keyed_reader`.
-/

namespace FluentFixtures

namespace Yaml

open Config (Value)

/-- Whether no two keys of a value are equal, if it is a mapping. -/
def Distinct (v : Value) : Prop := ∀ entries, v = .mapping entries → KeyMap.Distinct entries

theorem distinct_value {known : Text → Value} (hknown : ∀ name, Distinct (known name)) (n : Node) :
    Distinct (n.value known) := by
  intro entries h
  cases n with
  | scalar mark plain text => cases h
  | seq mark items => cases h
  | map mark nodes =>
    cases h
    exact KeyMap.distinct_ofList _
  | named name => exact hknown name entries h

theorem distinct_outline (n : Node) : Distinct n.outline := by
  intro entries h
  cases n <;> cases h

theorem distinct_valueOfName {values : List (Text × Value)}
    (h : ∀ entry ∈ values, Distinct entry.2) (name : Text) : Distinct (valueOfName values name) := by
  unfold valueOfName
  cases hfind : values.find? fun entry => entry.1 = name with
  | none => exact fun _ h => by cases h
  | some entry => exact h entry (List.mem_of_find?_eq_some hfind)

/-- However far names are followed. -/
theorem distinct_values (nodes : Nodes) (depth : Nat) :
    ∀ entry ∈ nodes.values depth, Distinct entry.2 := by
  induction depth with
  | zero =>
    intro entry hentry
    obtain ⟨node, -, rfl⟩ := List.mem_map.mp hentry
    exact distinct_outline node.2
  | succ depth ih =>
    intro entry hentry
    obtain ⟨node, -, rfl⟩ := List.mem_map.mp hentry
    exact distinct_value (distinct_valueOfName ih) node.2

theorem distinct_of_read {bytes : Bytes} {v : Value} (h : read bytes = .ok v) : Distinct v := by
  obtain ⟨g, -, h⟩ := bind_eq_ok_iff.mp h
  obtain ⟨-, -, h⟩ := bind_eq_ok_iff.mp h
  cases h
  unfold Graph.value
  cases g.root with
  | none => exact fun _ h => by cases h
  | some root => exact distinct_value (distinct_valueOfName (distinct_values _ _)) root

theorem keyed_reader : Config.Reader.Keyed reader := fun h =>
  (distinct_of_read (mapError_eq_ok_iff.mp h) _ rfl).keyed

end Yaml

end FluentFixtures
