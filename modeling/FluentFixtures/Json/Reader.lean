import FluentFixtures.Json.Place
import FluentFixtures.Json.Token

/-!
# Reading documents

The reader is a machine over tokens. Its state says what it waits for, with the
containers that are open around that place, innermost first. `step` takes the
token that the state waits for, and every other token is the fault of the state
at the place of the token. A repeated field keeps its first place and takes the
last value.
-/

namespace FluentFixtures.Json

/-- What a document has where it should have something else. -/
inductive SyntaxFault where
  | expectingValue
  | expectingName
  | expectingColon
  | expectingComma
  | extraData
  | inString (fault : StringFault)
  | byteOrderMark
  deriving DecidableEq, Repr

inductive ReadError where
  | malformed (fault : SyntaxFault) (place : Place)
  | integerTooLong (digits : Nat)
  deriving DecidableEq, Repr

def SyntaxFault.message : SyntaxFault → Text
  | expectingValue => "Expecting value"
  | expectingName => "Expecting property name enclosed in double quotes"
  | expectingColon => "Expecting ':' delimiter"
  | expectingComma => "Expecting ',' delimiter"
  | extraData => "Extra data"
  | inString .unterminated => "Unterminated string starting at"
  | inString .controlCharacter => "Invalid control character at"
  | inString .invalidEscape => "Invalid \\escape"
  | inString .invalidUnicodeEscape => "Invalid \\uXXXX escape"
  | byteOrderMark => "Unexpected UTF-8 BOM (decode using utf-8-sig)"

def ReadError.message : ReadError → Text
  | malformed fault place => fault.message ++ (": " : Text) ++ place.message
  | integerTooLong digits => tooManyDigits (some digits)

/-- A container that is open around the place of reading: an array with its items in reverse, or
an object whose field `name` is being read. -/
inductive Frame where
  | array (items : List Tree)
  | object (fields : Fields) (name : Text)

inductive State where
  /-- A value. -/
  | beforeValue (outer : List Frame)
  /-- The first item of an array, or its end. -/
  | beforeFirstItem (outer : List Frame)
  /-- A comma or the end of an array. -/
  | afterItem (items : List Tree) (outer : List Frame)
  /-- The first name of an object, or its end. -/
  | beforeFirstName (outer : List Frame)
  /-- A name. -/
  | beforeName (fields : Fields) (outer : List Frame)
  /-- The colon after a name. -/
  | beforeColon (fields : Fields) (name : Text) (outer : List Frame)
  /-- A comma or the end of an object. -/
  | afterField (fields : Fields) (outer : List Frame)
  /-- The end of the document. -/
  | finished (tree : Tree)

namespace State

def give (tree : Tree) : List Frame → State
  | [] => finished tree
  | .array items :: outer => afterItem (tree :: items) outer
  | .object fields name :: outer => afterField (Fields.put fields name tree) outer

/-- The state after the first token of a value. -/
def beginValue (outer : List Frame) : Token → Option State
  | .beginArray => some (beforeFirstItem outer)
  | .beginObject => some (beforeFirstName outer)
  | .str content => some (give (.leaf (.str content)) outer)
  | .scalar value => some (give (.leaf value) outer)
  | _ => none

/-- The state after a token that this state waits for. -/
def step : State → Token → Option State
  | beforeValue outer, token => beginValue outer token
  | beforeFirstItem outer, .endArray => some (give (.seq []) outer)
  | beforeFirstItem outer, token => beginValue (.array [] :: outer) token
  | afterItem items outer, .comma => some (beforeValue (.array items :: outer))
  | afterItem items outer, .endArray => some (give (.seq items.reverse) outer)
  | afterItem _ _, _ => none
  | beforeFirstName outer, .endObject => some (give (.keyed []) outer)
  | beforeFirstName outer, .str content => some (beforeColon [] content outer)
  | beforeFirstName _, _ => none
  | beforeName fields outer, .str content => some (beforeColon fields content outer)
  | beforeName _ _, _ => none
  | beforeColon fields name outer, .colon => some (beforeValue (.object fields name :: outer))
  | beforeColon _ _ _, _ => none
  | afterField fields outer, .comma => some (beforeName fields outer)
  | afterField fields outer, .endObject => some (give (.keyed fields) outer)
  | afterField _ _, _ => none
  | finished _, _ => none

/-- What is wrong if something else comes. -/
def fault : State → SyntaxFault
  | beforeValue _ => .expectingValue
  | beforeFirstItem _ => .expectingValue
  | afterItem _ _ => .expectingComma
  | beforeFirstName _ => .expectingName
  | beforeName _ _ => .expectingName
  | beforeColon _ _ _ => .expectingColon
  | afterField _ _ => .expectingComma
  | finished _ => .extraData

def takesValue : State → Bool
  | beforeValue _ => true
  | beforeFirstItem _ => true
  | _ => false

def takesString : State → Bool
  | beforeFirstName _ => true
  | beforeName _ _ => true
  | state => state.takesValue

/-- The fault of a text at whose start there is no token; a fault inside the token is told only
where the token would have been taken. -/
def tokenError (state : State) (document : Text) (offset : Nat) : TokenFault → ReadError
  | .none => .malformed state.fault (.of document offset)
  | .string fault within =>
    if state.takesString then .malformed (.inString fault) (.of document (offset + within))
    else .malformed state.fault (.of document offset)
  | .integerTooLong digits =>
    if state.takesValue then .integerTooLong digits
    else .malformed state.fault (.of document offset)

def run (document : Text) (state : State) (offset : Nat) (t : Text) : Except ReadError Tree :=
  match t with
  | [] =>
    match state with
    | finished tree => .ok tree
    | state => .error (.malformed state.fault (.of document offset))
  | c :: rest =>
    if isSpace c then run document state (offset + 1) rest
    else match _h : Token.next c rest with
      | .error fault => .error (state.tokenError document offset fault)
      | .ok (token, size, rest) =>
        match state.step token with
        | none => .error (.malformed state.fault (.of document offset))
        | some state => run document state (offset + size) rest
termination_by t.length
decreasing_by
  · simp
  · exact Nat.lt_succ_of_le (Token.next_length _h)

end State

/-- A byte order mark is no part of a document. -/
def byteOrderMark : CodePoint := 0xFEFF

def read (document : Text) : Except ReadError Tree :=
  if document.head? = some byteOrderMark then
    .error (.malformed .byteOrderMark (.of document 0))
  else State.run document (.beforeValue []) 0 document

end FluentFixtures.Json
