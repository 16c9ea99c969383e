import FluentFixtures.ErrorClass
import FluentFixtures.Number.Limit
import FluentFixtures.Text.Quoted
import FluentFixtures.Text.Utf8
import FluentFixtures.Yaml.Spot

/-!
# Faults of a file in YAML

Of YAML the modules here take a part: block and flow collections, plain and quoted
scalars, comments, anchors and document markers. Tags, directives, block scalars,
keys behind question marks, merge keys, dates and sexagesimal numbers are none of
it. A file that is no YAML is told what is wrong with it and where, and of what part
with its start where that helps. Other faults are those of its bytes and of the
numbers in it.
-/

namespace FluentFixtures.Yaml

inductive Cause where
  /-- A code point that no file may hold, and its index. -/
  | unacceptable (c : CodePoint) (index : Nat)
  /-- A code point that starts no token. -/
  | noToken (c : CodePoint)
  | keyWithoutColon
  | misplacedDash
  | misplacedColon
  /-- A code point in the name of an alias or an anchor. -/
  | noName (isAlias : Bool) (c : CodePoint)
  /-- A code point in the place of one of the digits of an escape. -/
  | noHexDigit (digits : Nat) (c : CodePoint)
  | unknownEscape (c : CodePoint)
  | openQuote
  | markerInQuotes
  /-- A token where a document, a node, or more of a collection is due. -/
  | noDocument (found : Text)
  | noNode (block : Bool) (found : Text)
  | noBlockItem (found : Text)
  | noBlockEntry (found : Text)
  | noFlowItem (found : Text)
  | noFlowEntry (found : Text)
  | secondDocument
  | unknownAlias (name : Text)
  | repeatedAnchor (name : Text)
  /-- A key that is a collection. -/
  | noKey
  /-- A plain scalar that denotes nothing. -/
  | noValue (kind : Text)
  deriving DecidableEq, Repr

/-- What is being read when a fault is found. -/
def Cause.context? : Cause → Option Text
  | noToken _ => some "while scanning for the next token"
  | keyWithoutColon => some "while scanning a simple key"
  | noName true _ => some "while scanning an alias"
  | noName false _ => some "while scanning an anchor"
  | noHexDigit _ _ => some "while scanning a double-quoted scalar"
  | unknownEscape _ => some "while scanning a double-quoted scalar"
  | openQuote => some "while scanning a quoted scalar"
  | markerInQuotes => some "while scanning a quoted scalar"
  | noNode true _ => some "while parsing a block node"
  | noNode false _ => some "while parsing a flow node"
  | noBlockItem _ => some "while parsing a block collection"
  | noBlockEntry _ => some "while parsing a block mapping"
  | noFlowItem _ => some "while parsing a flow sequence"
  | noFlowEntry _ => some "while parsing a flow mapping"
  | secondDocument => some "expected a single document in the stream"
  | repeatedAnchor name =>
    some (("found duplicate anchor " : Text) ++ Quoted.quote name ++ ("; first occurrence" : Text))
  | noKey => some "while constructing a mapping"
  | _ => none

def Cause.problem : Cause → Text
  | unacceptable c _ =>
    ("unacceptable character #x" : Text) ++ Text.hex 4 c.val ++
      (": special characters are not allowed" : Text)
  | noToken c =>
    ("found character " : Text) ++ Quoted.quote [c] ++ (" that cannot start any token" : Text)
  | keyWithoutColon => "could not find expected ':'"
  | misplacedDash => "sequence entries are not allowed here"
  | misplacedColon => "mapping values are not allowed here"
  | noName _ c =>
    ("expected alphabetic or numeric character, but found " : Text) ++ Quoted.quote [c]
  | noHexDigit digits c =>
    ("expected escape sequence of " : Text) ++ Text.decimal digits ++
      (" hexdecimal numbers, but found " : Text) ++ Quoted.quote [c]
  | unknownEscape c => ("found unknown escape character " : Text) ++ Quoted.quote [c]
  | openQuote => "found unexpected end of stream"
  | markerInQuotes => "found unexpected document separator"
  | noDocument found => ("expected '<document start>', but found " : Text) ++ Quoted.quote found
  | noNode _ found => ("expected the node content, but found " : Text) ++ Quoted.quote found
  | noBlockItem found => ("expected <block end>, but found " : Text) ++ Quoted.quote found
  | noBlockEntry found => ("expected <block end>, but found " : Text) ++ Quoted.quote found
  | noFlowItem found => ("expected ',' or ']', but got " : Text) ++ Quoted.quote found
  | noFlowEntry found =>
    ("expected ',' or '\x7d', but got " : Text) ++ Quoted.quote found
  | secondDocument => "but found another document"
  | unknownAlias name => ("found undefined alias " : Text) ++ Quoted.quote name
  | repeatedAnchor _ => "second occurrence"
  | noKey => "found unhashable key"
  | noValue kind =>
    ("could not determine a constructor for the tag 'tag:yaml.org,2002:" : Text) ++ kind ++
      ("'" : Text)

/-- Something wrong at a place, in a part that starts at another. -/
structure Fault where
  cause : Cause
  start : Option Mark
  mark : Mark
  deriving DecidableEq, Repr

/-- A place in a file with a name. -/
def placeText (file place : Text) : Text :=
  ("  in \"" : Text) ++ file ++ ("\", " : Text) ++ place

def Mark.text (file : Text) (m : Mark) : Text :=
  placeText file (("line " : Text) ++ Text.decimal (m.line + 1) ++ (", column " : Text) ++
    Text.decimal (m.column + 1))

/-- Where a fault is. -/
def Fault.place (file : Text) (fault : Fault) : Text :=
  match fault.cause with
  | .unacceptable _ index => placeText file (("position " : Text) ++ Text.decimal index)
  | _ => fault.mark.text file

def Fault.message (file : Text) (fault : Fault) : Text :=
  let start := (fault.start.filter (· ≠ fault.mark)).map (Mark.text file)
  Text.joinWith [0x0A] (fault.cause.context?.toList ++ start.toList ++
    [fault.cause.problem, fault.place file])

/-- Why a configuration file is refused: its bytes are no text; it is no YAML; it is nested too
deeply; an escape names no code point, by a little or by far; a number with a radix has no digits;
an integer has too many. -/
inductive Error where
  | encoding (fault : Utf8.Fault)
  | malformed (fault : Fault)
  | tooDeep
  | noCodePoint
  | hugeCodePoint
  | noDigits (radix : Nat)
  | integerTooLong (digits : Nat)
  deriving DecidableEq, Repr

/-- The error of a cause at a place. -/
def Cause.at (cause : Cause) (mark : Mark) : Error := .malformed ⟨cause, none, mark⟩

/-- The error of a cause at a place, in a part that starts at another. -/
def Cause.within (cause : Cause) (start mark : Mark) : Error := .malformed ⟨cause, some start, mark⟩

def Error.message (path : Text) : Error → Text
  | encoding fault => fault.message
  | malformed fault => fault.message path
  | tooDeep => "maximum recursion depth exceeded"
  | noCodePoint => "chr() arg not in range(0x110000)"
  | hugeCodePoint => "Python int too large to convert to C int"
  | noDigits radix =>
    ("invalid literal for int() with base " : Text) ++ Text.decimal radix ++ (": ''" : Text)
  | integerTooLong digits => tooManyDigits (some digits)

def Error.errorClass : Error → ErrorClass
  | encoding _ => .encoding
  | malformed _ => .yaml
  | tooDeep => .recursion
  | noCodePoint => .value
  | hugeCodePoint => .overflow
  | noDigits _ => .value
  | integerTooLong _ => .value

def Error.raised (path : Text) (error : Error) : Raised := ⟨error.errorClass, error.message path⟩

end FluentFixtures.Yaml
