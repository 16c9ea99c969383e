import FluentFixtures.Proofs.Json.Repeated
import FluentFixtures.Proofs.Json.Storable

/-!
# Trees with their surrogate pairs joined

Reading what is written joins the surrogate pairs of all strings and names, and
names that get equal come together: `Tree.joinPairs`. An encodable tree has no
pair, so it stays as it is: `Tree.joinPairs_eq_self`.
-/

namespace FluentFixtures

def Scalar.joinPairs : Scalar → Scalar
  | .str s => .str s.joinPairs
  | value => value

namespace Tree

mutual

def joinPairs : Tree → Tree
  | .leaf value => .leaf value.joinPairs
  | .seq items => .seq (joinItems items)
  | .keyed fields => .keyed (joinFields [] fields)

def joinItems : List Tree → List Tree
  | [] => []
  | t :: rest => joinPairs t :: joinItems rest

/-- Sets the fields one after the other after those that are done. -/
def joinFields (done : Fields) : List (Text × Tree) → Fields
  | [] => done
  | (name, t) :: rest => joinFields (Fields.put done name.joinPairs (joinPairs t)) rest

end

mutual

theorem joinPairs_eq_self : ∀ {t : Tree}, t.Encodable → t.joinPairs = t
  | .leaf value, h => by
    cases value with
    | str s => rw [joinPairs, Scalar.joinPairs, Text.joinPairs_eq_self h]
    | null | bool b | int n | double d => rfl
  | .seq _, h => by rw [joinPairs, joinItems_eq_self h.2]
  | .keyed fields, h => by rw [joinPairs, joinFields_eq_append h.2 [] h.1, List.nil_append]

theorem joinItems_eq_self : ∀ {items : List Tree},
    EveryItem (Node Scalar.Encodable NamesEncodable) items → joinItems items = items
  | [], _ => rfl
  | _ :: _, h => by rw [joinItems, joinPairs_eq_self h.1, joinItems_eq_self h.2]

theorem joinFields_eq_append : ∀ {fields : List (Text × Tree)},
    EveryField (Node Scalar.Encodable NamesEncodable) fields → ∀ done : Fields,
      NamesEncodable ((done ++ fields).map Prod.fst) → joinFields done fields = done ++ fields
  | [], _, done, _ => (List.append_nil done).symm
  | (name, t) :: fields, h, done, hnames => by
    have happend : done ++ (name, t) :: fields = (done ++ [(name, t)]) ++ fields := by simp
    have hname : name.Joined := hnames.2 name (by simp)
    have hnew : name ∉ done.map Prod.fst := by
      have hnodup := hnames.1
      rw [List.map_append, List.nodup_append] at hnodup
      exact fun hmem => hnodup.2.2 name hmem name List.mem_cons_self rfl
    rw [happend] at hnames ⊢
    rw [joinFields, joinPairs_eq_self h.1, Text.joinPairs_eq_self hname,
      Fields.put_of_not_mem hnew, joinFields_eq_append h.2 _ hnames]

end

end Tree

end FluentFixtures
