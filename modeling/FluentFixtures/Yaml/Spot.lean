import FluentFixtures.Text.Basic

/-!
# Places of a configuration file

Indentation and line structure mean something in YAML, so every code point is
kept with its index, line and column: a `Spot`. The spots of a file end with one
for its end, whose code point is null; no file may hold that. Spots without it
are all that is known of a file so far.
-/

namespace FluentFixtures.Yaml

/-- A line and a column, counted from zero. -/
structure Mark where
  line : Nat
  column : Nat
  deriving DecidableEq, Repr

/-- A code point where it stands. -/
structure Spot where
  char : CodePoint
  index : Nat
  line : Nat
  column : Nat

def Spot.mark (s : Spot) : Mark := ⟨s.line, s.column⟩

/-- What ends a line: a line feed, a next-line control, or a line or paragraph separator. -/
def isBreak (c : CodePoint) : Bool := c = '\n' || c = 0x85 || c = 0x2028 || c = 0x2029

/-- What a line end inside a scalar leaves in it. -/
def breakText (c : CodePoint) : Text := if c = 0x85 then [0x0A] else [c]

def isEnd (c : CodePoint) : Bool := c = 0

def isSpace (c : CodePoint) : Bool := c = ' '

/-- Space and tab. -/
def isBlank (c : CodePoint) : Bool := c = ' ' || c = '\t'

/-- What must follow an indicator that counts only before white space. -/
def isGap (c : CodePoint) : Bool := isEnd c || isBlank c || isBreak c

/-- What separates the entries of flow collections and closes them. -/
def isFlowMark (c : CodePoint) : Bool :=
  c = ',' || c = '[' || c = ']' || c = '{' || c = '}'

/-- The code points a file may hold. -/
def isAllowed (c : CodePoint) : Bool :=
  c = '\t' || c = '\n' || c = '\r' || (0x20 ≤ c.val && c.val ≤ 0x7E) || c = 0x85 ||
    (0xA0 ≤ c.val && c.val ≤ 0xD7FF) || (0xE000 ≤ c.val && c.val ≤ 0xFFFD) || 0x10000 ≤ c.val

def byteOrderMark : CodePoint := 0xFEFF

/-- The spots of a text that starts at a place. A byte order mark takes no column. -/
def spotsFrom (index line column : Nat) : Text → List Spot
  | [] => [⟨0, index, line, column⟩]
  | c :: rest =>
    ⟨c, index, line, column⟩ ::
      if isBreak c then spotsFrom (index + 1) (line + 1) 0 rest
      else if c = byteOrderMark then spotsFrom (index + 1) line column rest
      else spotsFrom (index + 1) line (column + 1) rest

def spots (t : Text) : List Spot :=
  match t with
  | c :: rest => if c = byteOrderMark then spotsFrom 1 0 0 rest else spotsFrom 0 0 0 t
  | [] => spotsFrom 0 0 0 t

/-- Whether a document marker, three dashes or three dots, stands here. -/
def isMarker (mark : CodePoint) : List Spot → Bool
  | a :: b :: c :: next :: _ =>
    a.char = mark && b.char = mark && c.char = mark && isGap next.char
  | _ => false

def isSeparator (spots : List Spot) : Bool := isMarker '-' spots || isMarker '.' spots

/-- Whether too little is known to tell whether a document marker stands here: not three code
points, or a marker without what follows it. -/
def isMarkerUnknown : List Spot → Bool
  | [] => true
  | [a] => !isEnd a.char
  | [_, b] => !isEnd b.char
  | [a, b, c] => a.char = b.char && b.char = c.char && (c.char = '-' || c.char = '.')
  | _ => false

/-- Skips spaces, comments and line ends, and says whether a line has ended. -/
def skip (comment broke : Bool) : List Spot → Bool × List Spot
  | [] => (broke, [])
  | s :: rest =>
    if isBreak s.char then skip false true rest
    else if comment && !isEnd s.char then skip true broke rest
    else if s.char = ' ' then skip false broke rest
    else if s.char = '#' then skip true broke rest
    else (broke, s :: rest)

theorem skip_length (comment broke : Bool) (spots : List Spot) :
    (skip comment broke spots).2.length ≤ spots.length := by
  fun_induction skip comment broke spots <;> simp_all <;> omega

end FluentFixtures.Yaml
