import FluentFixtures.Text.Script

/-!
# Markup of console lines

A tag is what stands between brackets if it starts with a small letter, `#`, `/`
or `@` and holds no left bracket. Tags are not shown; one that starts with a
slash closes an open tag, by its name or the innermost one. Of the backslashes
before a tag half are shown, and if their number is odd the tag is shown too.
`escape` makes a text free of tags. Elsewhere a backslash before a left bracket
is not shown.
-/

namespace FluentFixtures.Command.Markup

def backslash : CodePoint := '\\'

def isBackslash (c : CodePoint) : Bool := c = backslash

def isTagStart (c : CodePoint) : Bool :=
  (0x61 ≤ c.val && c.val ≤ 0x7A) || c = '#' || c = '/' || c = '@'

def isBracket (c : CodePoint) : Bool := c = '[' || c = ']'

/-- What is between the brackets of the tag that a text starts with, and the rest. -/
def tagAt? : Text → Option (Text × Text)
  | bracket :: start :: rest =>
    if bracket = '[' && isTagStart start then
      match rest.dropWhile fun c => !isBracket c with
      | closing :: after =>
        if closing = ']' then some (start :: rest.takeWhile fun c => !isBracket c, after) else none
      | [] => none
    else none
  | _ => none

/-- A part of a line: a text without tags, or what is between the brackets of a tag with the
number of backslashes before it. -/
inductive Segment where
  | plain (t : Text)
  | tag (backslashes : Nat) (body : Text)
  deriving DecidableEq, Repr

namespace Segment

def bracketed (body : Text) : Text := 0x5B :: body ++ [0x5D]

def source : Segment → Text
  | plain t => t
  | tag n body => List.replicate n backslash ++ bracketed body

def escaped : Segment → Text
  | plain t => t
  | tag n body => List.replicate (2 * n + 1) backslash ++ bracketed body

def dropBackslashes : Text → Text
  | [] => []
  | [c] => [c]
  | c :: d :: rest =>
    if c = backslash && d = '[' then dropBackslashes (d :: rest)
    else c :: dropBackslashes (d :: rest)

/-- What is shown of a segment, tags that count apart. -/
def shown : Segment → Text
  | plain t => dropBackslashes t
  | tag n body =>
    List.replicate (n / 2) backslash ++ (if n % 2 = 1 then bracketed body else [])

end Segment

theorem tagAt?_length {t body after : Text} (h : tagAt? t = some (body, after)) :
    after.length < t.length := by
  unfold tagAt? at h
  split at h
  · next bracket start rest =>
    split at h
    · split at h
      · next closing after' heq =>
        have hdrop := (List.dropWhile_sublist (l := rest) fun c => !isBracket c).length_le
        rw [heq, List.length_cons] at hdrop
        split at h
        · cases h
          simp only [List.length_cons]
          omega
        · cases h
      · cases h
    · cases h
  · cases h

/-- The segments of a line, with the text before them in reverse. -/
def segmentsAfter (done : Text) (t : Text) : List Segment :=
  match t with
  | [] => [.plain done.reverse]
  | c :: rest =>
    match _h : tagAt? ((c :: rest).dropWhile isBackslash) with
    | some (body, after) =>
      .plain done.reverse :: .tag ((c :: rest).takeWhile isBackslash).length body ::
        segmentsAfter [] after
    | none => segmentsAfter (c :: done) rest
termination_by t.length
decreasing_by
  · exact Nat.lt_of_lt_of_le (tagAt?_length _h) (List.dropWhile_sublist isBackslash).length_le
  · simp

def segments (t : Text) : List Segment := segmentsAfter [] t

/-- The text with its tags escaped, and a backslash at its end that could escape what comes after
it. -/
def escape (t : Text) : Text :=
  let escaped := (segments t).flatMap Segment.escaped
  match escaped.reverse with
  | [] => []
  | [c] => if c = backslash then [c, c] else [c]
  | c :: d :: _ => if c = backslash && d ≠ backslash then escaped ++ [c] else escaped

/-- What a line shows of a text that is escaped in it. -/
def shown (t : Text) : Text := (segments (escape t)).flatMap Segment.shown

/-! ## Tags -/

/-- A tag has a name and after an equals sign its parameters. -/
structure Tag where
  name : Text
  parameters : Option Text
  deriving DecidableEq, Repr

namespace Tag

def ofBody (body : Text) : Tag :=
  { name := body.takeWhile (· ≠ 0x3D)
    parameters :=
      match body.dropWhile (· ≠ 0x3D) with
      | [] => none
      | _ :: parameters => some parameters }

def toText (tag : Tag) : Text :=
  match tag.parameters with
  | none => Segment.bracketed tag.name
  | some parameters => Segment.bracketed (tag.name ++ 0x3D :: parameters)

end Tag

/-- Why a line is not shown: a closing tag at a position has nothing to close, or no open tag has
its name. -/
inductive MarkupError where
  | nothingOpen (position : Nat)
  | notOpen (tag : Tag) (position : Nat)
  deriving DecidableEq, Repr

def MarkupError.message : MarkupError → Text
  | nothingOpen position =>
    ("closing tag '[/]' at position " : Text) ++ Text.decimal position ++
      (" has nothing to close" : Text)
  | notOpen tag position =>
    ("closing tag '" : Text) ++ tag.toText ++ ("' at position " : Text) ++
      Text.decimal position ++ (" doesn't match any open tag" : Text)

def isSpace (c : CodePoint) : Bool := Script.isBlank c || (0x1C ≤ c.val && c.val ≤ 0x1F)

def trim (t : Text) : Text := ((t.dropWhile isSpace).reverse.dropWhile isSpace).reverse

def lower (c : CodePoint) : CodePoint :=
  if 0x41 ≤ c.val && c.val ≤ 0x5A then CodePoint.ofNat (c.val + 0x20) else c

/-- The form of a name in which tags are compared. -/
def normalName (name : Text) : Text := (trim name).map lower

/-- The names of the open tags, innermost first, after a tag at a position. -/
def follow (names : List Text) (position : Nat) (tag : Tag) : Except MarkupError (List Text) :=
  match tag.name with
  | [] => .ok ([] :: names)
  | c :: name =>
    if c = '/' then
      if (trim name).isEmpty then
        match names with
        | [] => .error (.nothingOpen position)
        | _ :: outer => .ok outer
      else if names.contains (normalName name) then .ok (names.erase (normalName name))
      else .error (.notOpen tag position)
    else .ok (normalName (c :: name) :: names)

/-- What is shown of segments from a position on inside open tags. -/
def renderFrom (names : List Text) (position : Nat) : List Segment → Except MarkupError Text
  | [] => .ok []
  | segment :: rest => do
    let names ←
      match segment with
      | .plain _ => .ok names
      | .tag n body =>
        if n % 2 = 1 then .ok names else follow names (position + n) (Tag.ofBody body)
    let after ← renderFrom names (position + segment.source.length) rest
    .ok (segment.shown ++ after)

def render (t : Text) : Except MarkupError Text := renderFrom [] 0 (segments t)

end FluentFixtures.Command.Markup
