import FluentFixtures.Rules.Table
import FluentFixtures.Tree.Lines

/-!
# The normalization passes

`undashNames` takes the dash off the names of terms, `dropImpliedTypes` drops the
types that a node's position implies, and `splitLines` gives every line of a
text element in a sequence an element of its own. `normalize` runs them in this
order: only the last one changes sequences.
-/

namespace FluentFixtures

/-- Why a text element cannot be split: it has no content, its content can hold no line feed, or
its content holds one and is no text. -/
inductive SplitError where
  | missingContent
  | noContainer (kind : ValueKind)
  | noText (kind : ValueKind)
  deriving DecidableEq, Repr

def SplitError.message : SplitError → Text
  | missingContent => "'value'"
  | noContainer kind =>
    ("argument of type '" : Text) ++ kind.name ++ ("' is not iterable" : Text)
  | noText kind =>
    ("'" : Text) ++ kind.name ++ ("' object has no attribute 'split'" : Text)

namespace Tree

def undashField (name : Text) (value : Scalar) : Option Scalar :=
  match value with
  | .str (0x2D :: rest) => some (if name = nameField then .str rest else value)
  | _ => some value

/-- Takes the leading dash off every name. -/
def undashEdit : Edit Empty where
  field name value _ := undashField name value

def impliedField (rules : RuleTable) (name : Text) (value : Scalar) (key : ParentKey) :
    Option Scalar :=
  match value with
  | .str type => if name = typeField && rules.implies type key.scalar then none else some value
  | _ => some value

/-- Drops every type that the rules say is implied. -/
def impliedEdit (rules : RuleTable) : Edit Empty where
  field := impliedField rules

/-- A line feed on its own, the item or field name that a text never is. -/
def lineFeedText : Text := [Newline.lineFeed]

/-- The lines that replace a text element with this content; `none` keeps it as it is. -/
def contentLines? (keepBlank : Bool) : Tree → Except SplitError (Option (List Text))
  | .leaf (.str content) =>
    .ok (if content.contains Newline.lineFeed then some (Text.lines content keepBlank) else none)
  | .leaf value => .error (.noContainer value.kind)
  | .seq items =>
    if items.any (isString lineFeedText) then .error (.noText .list) else .ok none
  | .keyed fields =>
    if fields.any (fun field => field.1 = lineFeedText) then .error (.noText .mapping)
    else .ok none

/-- The lines that replace an item of a sequence; `none` keeps it. -/
def itemLines? (keepBlank : Bool) (item : Tree) : Except SplitError (Option (List Text)) :=
  match item with
  | .keyed fields =>
    if item.isTextElement then
      match Fields.get? fields valueField with
      | none => .error .missingContent
      | some content => contentLines? keepBlank content
    else .ok none
  | _ => .ok none

/-- Splits every text element in a sequence that holds a line feed. -/
def splitEdit (keepBlank : Bool) : Edit SplitError where
  item := itemLines? keepBlank

/-- The result of an edit that cannot fail. -/
def ofTotal {α : Type} : Except Empty α → α
  | .ok value => value

def undashNames (t : Tree) : Tree := ofTotal (t.edit undashEdit)

def dropImpliedTypes (rules : RuleTable) (t : Tree) : Tree := ofTotal (t.edit (impliedEdit rules))

def splitLines (keepBlank : Bool) (t : Tree) : Except SplitError Tree :=
  t.edit (splitEdit keepBlank)

/-- All three passes: strip, prune, split. -/
def normalize (rules : RuleTable) (keepBlank : Bool) (t : Tree) : Except SplitError Tree :=
  splitLines keepBlank (dropImpliedTypes rules (undashNames t))

end Tree

end FluentFixtures
