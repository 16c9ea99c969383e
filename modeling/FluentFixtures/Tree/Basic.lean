import FluentFixtures.Number.Double
import FluentFixtures.Text.Basic

/-!
# Fixture trees

A syntax tree in a fixture is a leaf, a sequence of trees or a list of named
fields. Field order is part of the tree. A keyed node may carry its production
in the field `type`; the text elements of a pattern are such nodes.
-/

namespace FluentFixtures

/-- A value without parts. -/
inductive Scalar where
  | null
  | bool (value : Bool)
  | int (value : Int)
  | double (value : Double)
  | str (value : Text)
  deriving DecidableEq, Repr

/-- The kinds of value that messages name. -/
inductive ValueKind where
  | null
  | bool
  | int
  | float
  | str
  | bytes
  | date
  | moment
  | list
  | pair
  | set
  | mapping
  deriving DecidableEq, Repr

def ValueKind.name : ValueKind → Text
  | null => "NoneType"
  | bool => "bool"
  | int => "int"
  | float => "float"
  | str => "str"
  | bytes => "bytes"
  | date => "datetime.date"
  | moment => "datetime.datetime"
  | list => "list"
  | pair => "tuple"
  | set => "set"
  | mapping => "dict"

/-- The name of a kind without that of the module it is from. -/
def ValueKind.shortName : ValueKind → Text
  | date => "date"
  | moment => "datetime"
  | kind => kind.name

def Scalar.kind : Scalar → ValueKind
  | .null => .null
  | .bool _ => .bool
  | .int _ => .int
  | .double _ => .float
  | .str _ => .str

inductive Tree where
  | leaf (value : Scalar)
  | seq (items : List Tree)
  | keyed (fields : List (Text × Tree))
  deriving Repr, Inhabited

abbrev Fields := List (Text × Tree)

/-- The three shapes of node. -/
inductive NodeKind where
  | keyed
  | sequence
  | leaf
  deriving DecidableEq, Repr

/-- The production a node is an instance of. -/
def typeField : Text := "type"

/-- The identifier of a node. -/
def nameField : Text := "name"

/-- The content of a text element. -/
def valueField : Text := "value"

/-- The production of text elements. -/
def textElementType : Text := "TextElement"

namespace Fields

def get? (fields : Fields) (name : Text) : Option Tree :=
  (fields.find? fun field => field.1 = name).map Prod.snd

/-- Sets a field: in its place if it is there, and at the end if not. -/
def put : Fields → Text → Tree → Fields
  | [], name, value => [(name, value)]
  | field :: rest, name, value =>
    if field.1 = name then (name, value) :: rest else field :: put rest name value

end Fields

namespace Tree

def kind : Tree → NodeKind
  | .leaf _ => .leaf
  | .seq _ => .sequence
  | .keyed _ => .keyed

def type? : Tree → Option Text
  | .keyed fields =>
    match Fields.get? fields typeField with
    | some (.leaf (.str name)) => some name
    | _ => none
  | _ => none

def isTextElement (t : Tree) : Bool := t.type? = some textElementType

/-- A text element with the given content and no other fields. -/
def textElement (content : Text) : Tree :=
  .keyed [(typeField, .leaf (.str textElementType)), (valueField, .leaf (.str content))]

def isString (text : Text) : Tree → Bool
  | .leaf (.str s) => s = text
  | _ => false

end Tree

end FluentFixtures
