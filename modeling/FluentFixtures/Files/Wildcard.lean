import FluentFixtures.Text.Basic

/-!
# Wildcards

In a name pattern `*` stands for any text, `?` for one code point, and brackets
for one of a set of code points; all else stands for itself. A bracket that is
not closed stands for itself too. `matchesName` cuts the name into pieces that
match one after another.
-/

namespace FluentFixtures.Files

/-- A member of a bracket: a code point, or all from one up to another. -/
inductive SetItem where
  | point (value : CodePoint)
  | range (low high : CodePoint)
  deriving DecidableEq, Repr

/-- A set of code points between brackets, or all the others. -/
structure CharSet where
  negated : Bool
  items : List SetItem
  deriving DecidableEq, Repr

inductive Piece where
  | literal (value : CodePoint)
  | one
  | many
  | set (chars : CharSet)
  deriving DecidableEq, Repr

namespace SetItem

def contains (c : CodePoint) : SetItem → Bool
  | point value => c = value
  | range low high => low ≤ c && c ≤ high

/-- The items of a bracket: a hyphen between two code points makes a range. -/
def ofText : Text → List SetItem
  | low :: hyphen :: high :: rest =>
    if hyphen = '-' then range low high :: ofText rest
    else point low :: ofText (hyphen :: high :: rest)
  | c :: rest => point c :: ofText rest
  | [] => []
termination_by t => t.length

/-- Ranges that end before they begin have no members. -/
def isEmpty : SetItem → Bool
  | point _ => false
  | range low high => high < low

end SetItem

namespace CharSet

def contains (set : CharSet) (c : CodePoint) : Bool :=
  (set.items.any (SetItem.contains c)) != set.negated

def nonempty (t : Text) : List SetItem := (SetItem.ofText t).filter fun item => !item.isEmpty

/-- The set that the text between brackets spells. An exclamation mark in front negates it, in
front of what is left without the empty ranges. -/
def ofText (t : Text) : CharSet :=
  match t with
  | [] => ⟨false, []⟩
  | c :: rest =>
    if c = '!' then ⟨true, nonempty rest⟩
    else
      match nonempty t with
      | .point d :: items => if d = '!' then ⟨true, items⟩ else ⟨false, .point d :: items⟩
      | .range low high :: items =>
        if low = '!' then ⟨true, .point '-' :: .point high :: items⟩
        else ⟨false, .range low high :: items⟩
      | [] => ⟨false, []⟩

/-- The number of code points after an opening bracket that do not close it, whatever they are. -/
def guarded : Text → Nat
  | a :: b :: _ => if a = '!' then (if b = ']' then 2 else 1) else if a = ']' then 1 else 0
  | [a] => if a = '!' || a = ']' then 1 else 0
  | [] => 0

def closes (c : CodePoint) : Bool := c = ']'

/-- The text up to the closing bracket and the text after it. -/
def cut? (t : Text) : Option (Text × Text) :=
  let inner := (t.drop (guarded t)).takeWhile fun c => !closes c
  match (t.drop (guarded t)).dropWhile fun c => !closes c with
  | [] => none
  | _ :: rest => some (t.take (guarded t) ++ inner, rest)

theorem cut?_length {t inner rest : Text} (h : cut? t = some (inner, rest)) :
    rest.length < t.length := by
  unfold cut? at h
  simp only at h
  split at h
  · cases h
  · next c tail heq =>
    cases h
    have hdrop := (List.dropWhile_sublist (fun c => !closes c) (l := t.drop (guarded t))).length_le
    rw [heq, List.length_cons, List.length_drop] at hdrop
    omega

end CharSet

namespace Piece

/-- Whether a piece for one code point stands for this one. -/
def accepts (c : CodePoint) : Piece → Bool
  | literal value => c = value
  | one => true
  | many => false
  | set chars => chars.contains c

/-- The pieces of a name pattern. -/
def ofText (t : Text) : List Piece :=
  match t with
  | [] => []
  | c :: rest =>
    if c = '*' then many :: ofText rest
    else if c = '?' then one :: ofText rest
    else if c = '[' then
      match _h : CharSet.cut? rest with
      | some (inner, after) => set (CharSet.ofText inner) :: ofText after
      | none => literal c :: ofText rest
    else literal c :: ofText rest
termination_by t.length
decreasing_by
  · simp
  · simp
  · have := CharSet.cut?_length _h
    simp only [List.length_cons]
    omega
  · simp
  · simp

/-- For each place whether it or a later one holds. -/
def anyLater : List Bool → List Bool
  | [] => []
  | b :: rest =>
    match anyLater rest with
    | [] => [b]
    | later :: more => (b || later) :: later :: more

/-- For each ending of the name, the whole first and the empty one last, whether the pieces match
it. -/
def matchesEndings (name : Text) : List Piece → List Bool
  | [] => name.map (fun _ => false) ++ [true]
  | many :: pieces => anyLater (matchesEndings name pieces)
  | piece :: pieces =>
    List.zipWith (fun c later => piece.accepts c && later) name
      (matchesEndings name pieces).tail ++ [false]

def matchesName (pieces : List Piece) (name : Text) : Bool :=
  (matchesEndings name pieces).head? = some true

end Piece

end FluentFixtures.Files
