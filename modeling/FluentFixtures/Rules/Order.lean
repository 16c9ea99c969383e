import FluentFixtures.Rules.Key

/-!
# Sorted keys

Strings are ordered by their code points, byte strings by their bytes, numbers,
dates and moments by their values, and pairs by what they begin to differ in.
Nothing else is ordered, no two sorts against each other, and no moment whose
offset is known against one whose offset is not. `sort?` sorts keys of which any
two have an order, and refuses others. A key that is not a number is last in a
set; in a map it is less than none and none is less than it, so its place depends
on the way the entries are sorted.
-/

namespace FluentFixtures

/-- A number on the line with both infinities, in units of the smallest positive double. -/
inductive Magnitude where
  | below
  | at (units : Int)
  | above
  deriving DecidableEq, Repr

def Magnitude.compare : Magnitude → Magnitude → Ordering
  | .below, .below => .eq
  | .below, _ => .lt
  | .at _, .below => .gt
  | .at a, .at b => Ord.compare a b
  | .at _, .above => .lt
  | .above, .above => .eq
  | .above, _ => .gt

namespace Scalar

def isString : Scalar → Bool
  | .str _ => true
  | _ => false

/-- Where a number stands; what is not a number stands above all. -/
def magnitude : Scalar → Magnitude
  | .bool b => .at ((if b then 1 else 0) * Double.unitsPerOne)
  | .int n => .at (n * Double.unitsPerOne)
  | .double (.finite negative rank) => .at (Double.signedUnits negative rank)
  | .double (.infinite true) => .below
  | _ => .above

def isNumber : Scalar → Bool
  | .bool _ => true
  | .int _ => true
  | .double _ => true
  | _ => false

end Scalar

/-- Where a key stands among those that it can be compared with. -/
inductive Place where
  | line (magnitude : Magnitude)
  | word (text : Text)
  | nested (first second : Place)

/-- The order of places; places of different sorts are not compared by keys. -/
def Place.compare : Place → Place → Ordering
  | .line a, .line b => a.compare b
  | .line _, _ => .lt
  | .word _, .line _ => .gt
  | .word s, .word t => Text.compare s t
  | .word _, .nested _ _ => .lt
  | .nested a b, .nested c d => (compare a c).then (compare b d)
  | .nested _ _, _ => .gt

namespace Key

def isString : Key → Bool
  | scalar s => s.isString
  | _ => false

def place : Key → Place
  | scalar (.str t) => .word t
  | scalar s => .line s.magnitude
  | bytes b => .word (b.map CodePoint.ofByte)
  | date day => .line (.at day)
  | moment m => .line (.at m.instant)
  | pair a b => .nested a.place b.place

/-- The order of keys that have one. -/
def compare (a b : Key) : Ordering := a.place.compare b.place

/-- Whether two keys have an order. -/
def comparable : Key → Key → Bool
  | scalar a, scalar b => (a.isString && b.isString) || (a.isNumber && b.isNumber)
  | bytes _, bytes _ => true
  | date _, date _ => true
  | moment m, moment n => m.offset.isSome = n.offset.isSome
  | pair a b, pair c d => if same a c then same b d || comparable b d else comparable a c
  | _, _ => false

/-- Whether a key is less than another; one that is not a number never is. -/
def less (a b : Key) : Bool :=
  a ≠ .double .nan && b ≠ .double .nan && (a.compare b).isLT

/-- Whether all the keys can be put in one order. -/
def allComparable : List Key → Bool
  | [] => true
  | key :: rest => rest.all (comparable key) && allComparable rest

end Key

/-! ## Sorting by insertion

The items at the start that are in order already, upwards or strictly downwards,
are taken as they are. Each one after them goes where a binary search finds its
place, behind those equal to it.
-/

section Insertion

variable {α : Type} (less : α → α → Bool)

/-- Where an item belongs among the sorted items from `low` up to `high`. -/
def position (x : α) (sorted : List α) (low high : Nat) : Nat :=
  if low < high then
    let middle := (low + high) / 2
    match sorted[middle]? with
    | some y =>
      if less x y then position x sorted low middle else position x sorted (middle + 1) high
    | none => low
  else low
termination_by high - low

def insertSorted (sorted : List α) (x : α) : List α :=
  let place := position less x sorted 0 sorted.length
  sorted.take place ++ x :: sorted.drop place

/-- How far the items after `x` go on upwards, and the rest. -/
def upwards (x : α) : List α → List α × List α
  | [] => ([], [])
  | y :: rest =>
    if less y x then ([], y :: rest)
    else
      let (run, rest) := upwards y rest
      (y :: run, rest)

/-- How far the items after `x` go on strictly downwards, and the rest. -/
def downwards (x : α) : List α → List α × List α
  | [] => ([], [])
  | y :: rest =>
    if less y x then
      let (run, rest) := downwards y rest
      (y :: run, rest)
    else ([], y :: rest)

def insertionSort : List α → List α
  | x :: y :: rest =>
    if less y x then
      let (run, rest) := downwards less y rest
      rest.foldl (insertSorted less) (x :: y :: run).reverse
    else
      let (run, rest) := upwards less y rest
      rest.foldl (insertSorted less) (x :: y :: run)
  | items => items

theorem insertSorted_perm (sorted : List α) (x : α) :
    (insertSorted less sorted x).Perm (x :: sorted) := by
  unfold insertSorted
  refine List.perm_middle.trans (List.Perm.cons x ?_)
  rw [List.take_append_drop]

theorem foldl_insertSorted_perm (items sorted : List α) :
    (items.foldl (insertSorted less) sorted).Perm (sorted ++ items) := by
  induction items generalizing sorted with
  | nil => simp
  | cons x rest ih =>
    refine (ih (insertSorted less sorted x)).trans ?_
    refine ((insertSorted_perm less sorted x).append_right rest).trans ?_
    exact List.perm_middle.symm

theorem upwards_append (x : α) (items : List α) :
    (upwards less x items).1 ++ (upwards less x items).2 = items := by
  induction items generalizing x with
  | nil => rfl
  | cons y rest ih =>
    simp only [upwards]
    split
    · rfl
    · exact congrArg (y :: ·) (ih y)

theorem downwards_append (x : α) (items : List α) :
    (downwards less x items).1 ++ (downwards less x items).2 = items := by
  induction items generalizing x with
  | nil => rfl
  | cons y rest ih =>
    simp only [downwards]
    split
    · exact congrArg (y :: ·) (ih y)
    · rfl

theorem insertionSort_perm (items : List α) : (insertionSort less items).Perm items := by
  match items with
  | [] => exact List.Perm.refl _
  | [_] => exact List.Perm.refl _
  | x :: y :: rest =>
    simp only [insertionSort]
    split
    · refine (foldl_insertSorted_perm less _ _).trans ?_
      refine ((List.reverse_perm _).append_right _).trans ?_
      rw [List.cons_append, List.cons_append, downwards_append]
    · refine (foldl_insertSorted_perm less _ _).trans ?_
      rw [List.cons_append, List.cons_append, upwards_append]

end Insertion

/-- The entries in the order of their keys. -/
def KeyMap.sort? {α : Type} (entries : KeyMap α) : Option (KeyMap α) :=
  if Key.allComparable (entries.map Prod.fst) then
    some (insertionSort (fun a b => Key.less a.1 b.1) entries)
  else none

def KeySet.sort? (keys : KeySet) : Option (List Key) :=
  if Key.allComparable keys then some (keys.mergeSort fun a b => (Key.compare a b).isLE)
  else none

end FluentFixtures
