import FluentFixtures.Yaml.Scalar
import FluentFixtures.Yaml.Source

/-!
# Tokens of a configuration file

The tokens are those of a part of YAML: there are none for tags, directives, block
scalars and question marks.

A `Scan` is what the tokens so far leave open: the indentation of the block
collections around this place, the number of flow collections, and inside each of
them the token that may turn out to be a key. Such a candidate is known as a key
only at the colon after it, on the same line and within 1024 code points; the
tokens that open the key and its mapping then go in front of it. Up to the first
candidate the tokens are settled, whatever comes after them.
-/

namespace FluentFixtures.Yaml

inductive Lexeme where
  | documentStart
  | documentEnd
  | streamEnd
  | blockSequenceStart
  | blockMappingStart
  | blockEnd
  | blockEntry
  | key
  | value
  | flowSequenceStart
  | flowSequenceEnd
  | flowMappingStart
  | flowMappingEnd
  | flowEntry
  | anchor (name : Text)
  | aliasOf (name : Text)
  | scalar (plain : Bool) (text : Text)
  deriving DecidableEq, Repr

/-- What messages call a lexical unit. -/
def Lexeme.name : Lexeme → Text
  | documentStart => "<document start>"
  | documentEnd => "<document end>"
  | streamEnd => "<stream end>"
  | blockSequenceStart => "<block sequence start>"
  | blockMappingStart => "<block mapping start>"
  | blockEnd => "<block end>"
  | blockEntry => "-"
  | key => "?"
  | value => ":"
  | flowSequenceStart => "["
  | flowSequenceEnd => "]"
  | flowMappingStart => "\x7b"
  | flowMappingEnd => "\x7d"
  | flowEntry => ","
  | anchor _ => "<anchor>"
  | aliasOf _ => "<alias>"
  | scalar _ _ => "<scalar>"

structure Token where
  lexeme : Lexeme
  mark : Mark
  deriving DecidableEq, Repr

/-- A token that may be a key: the number of tokens before it and of flow collections around it,
where it starts, and whether nothing but a key may stand there. -/
structure Candidate where
  before : Nat
  depth : Nat
  required : Bool
  index : Nat
  mark : Mark

/-- What the tokens so far leave open. -/
structure Scan where
  /-- The tokens, last first. -/
  done : List Token := []
  /-- The number of tokens. -/
  count : Nat := 0
  /-- The column of the innermost block collection, `-1` outside all of them. -/
  indent : Int := -1
  /-- The columns of the block collections around it. -/
  outer : List Int := []
  /-- The number of flow collections around this place. -/
  depth : Nat := 0
  /-- The candidates, at most one a depth, the deepest first. -/
  candidates : List Candidate := []
  /-- Whether a key may start here. -/
  keyAllowed : Bool := true

namespace Scan

def inFlow (st : Scan) : Bool := st.depth > 0

def push (st : Scan) (lexeme : Lexeme) (mark : Mark) : Scan :=
  { st with done := ⟨lexeme, mark⟩ :: st.done, count := st.count + 1 }

/-- Ends the block collections that are indented more than a column; the columns around the
innermost one are given. -/
def closeBlocks (column : Int) (mark : Mark) (st : Scan) : List Int → Scan
  | [] => st
  | next :: outer =>
    if column < st.indent then
      closeBlocks column mark { st.push .blockEnd mark with indent := next, outer } outer
    else st

/-- In block context, ends the collections that are indented more than a column. -/
def unwind (st : Scan) (column : Int) (mark : Mark) : Scan :=
  if st.inFlow then st else closeBlocks column mark st st.outer

/-- Starts a block collection at a column unless one is there, and says whether it did. -/
def indentTo (st : Scan) (column : Nat) : Bool × Scan :=
  if st.indent < column then
    (true, { st with indent := column, outer := st.indent :: st.outer })
  else (false, st)

/-- A candidate on an earlier line, or too far back, is no key; those before it are none either. -/
def isStale (s : Spot) (c : Candidate) : Bool :=
  c.mark.line ≠ s.line || s.index - c.index > 1024

/-- Drops the stale candidates; one that must be a key may not be stale. -/
def dropStale (st : Scan) (s : Spot) : Except Error Scan :=
  match (st.candidates.dropWhile fun c => !isStale s c).find? Candidate.required with
  | some c => .error (Cause.keyWithoutColon.within c.mark s.mark)
  | none => .ok { st with candidates := st.candidates.takeWhile fun c => !isStale s c }

/-- The candidate at this depth and the others. -/
def candidate? (st : Scan) : Option (Candidate × List Candidate) :=
  match st.candidates with
  | c :: rest => if c.depth = st.depth then some (c, rest) else none
  | [] => none

/-- Gives up the candidate at this depth, which must not be required. -/
def dropCandidate (st : Scan) (s : Spot) : Except Error Scan :=
  match st.candidate? with
  | some (c, candidates) =>
    if c.required then .error (Cause.keyWithoutColon.within c.mark s.mark)
    else .ok { st with candidates }
  | none => .ok st

/-- Notes that the next token may be a key. -/
def saveCandidate (st : Scan) (s : Spot) : Except Error Scan :=
  if st.keyAllowed then do
    let required := !st.inFlow && st.indent = s.column
    let st ← st.dropCandidate s
    .ok { st with candidates := ⟨st.count, st.depth, required, s.index, s.mark⟩ :: st.candidates }
  else .ok st

/-- The tokens that are settled: those before all candidates. -/
def settled (st : Scan) : List Token :=
  match st.candidates.getLast? with
  | some c => st.done.reverse.take c.before
  | none => st.done.reverse

/-- Puts tokens in front of a candidate, the last one first. -/
def insertBefore (st : Scan) (c : Candidate) (tokens : List Token) : Scan :=
  let after := st.count - c.before
  { st with
    done := st.done.take after ++ tokens ++ st.done.drop after
    count := st.count + tokens.length }

def marker (st : Scan) (s : Spot) (lexeme : Lexeme) : Except Error Scan := do
  let st ← (st.unwind (-1) s.mark).dropCandidate s
  .ok ({ st with keyAllowed := false }.push lexeme s.mark)

def openFlow (st : Scan) (s : Spot) (lexeme : Lexeme) : Except Error Scan := do
  let st ← st.saveCandidate s
  .ok ({ st with depth := st.depth + 1, keyAllowed := true }.push lexeme s.mark)

/-- The end of a flow collection; that one is open is for the parser to see. -/
def closeFlow (st : Scan) (s : Spot) (lexeme : Lexeme) : Except Error Scan := do
  let st ← st.dropCandidate s
  .ok ({ st with depth := st.depth - 1, keyAllowed := false }.push lexeme s.mark)

def flowEntry (st : Scan) (s : Spot) : Except Error Scan := do
  let st ← { st with keyAllowed := true }.dropCandidate s
  .ok (st.push .flowEntry s.mark)

def blockEntry (st : Scan) (s : Spot) : Except Error Scan := do
  let st ←
    if st.inFlow then .ok st
    else if st.keyAllowed then
      let (starts, st) := st.indentTo s.column
      .ok (if starts then st.push .blockSequenceStart s.mark else st)
    else .error (Cause.misplacedDash.at s.mark)
  let st ← { st with keyAllowed := true }.dropCandidate s
  .ok (st.push .blockEntry s.mark)

/-- A colon makes the candidate a key; without one it may start a mapping with an empty key. -/
def value (st : Scan) (s : Spot) : Except Error Scan :=
  match st.candidate? with
  | some (c, candidates) =>
    let (starts, st) := if st.inFlow then (false, st) else st.indentTo c.mark.column
    let opened := if starts then [⟨.blockMappingStart, c.mark⟩] else []
    let st := st.insertBefore c (⟨.key, c.mark⟩ :: opened)
    .ok ({ st with candidates, keyAllowed := false }.push .value s.mark)
  | none =>
    if st.inFlow then .ok ({ st with keyAllowed := false }.push .value s.mark)
    else if st.keyAllowed then
      let (starts, st) := st.indentTo s.column
      .ok ((if starts then st.push .blockMappingStart s.mark else st).push .value s.mark)
    else .error (Cause.misplacedColon.at s.mark)

/-- The letters of anchors and aliases. -/
def isNameChar (c : CodePoint) : Bool :=
  c.isDigit || (0x41 ≤ c.val && c.val ≤ 0x5A) || (0x61 ≤ c.val && c.val ≤ 0x7A) || c = '-' ||
    c = '_'

/-- What may follow the name of an anchor or alias. -/
def endsName (c : CodePoint) : Bool :=
  isGap c || c = '?' || c = ':' || c = ',' || c = ']' || c = '}' || c = '%' || c = '@' || c = 0x60

/-- The name of an anchor or alias that starts at a mark. Nothing is left where more of the file has
to be known. -/
def name (isAlias : Bool) (start : Mark) (spots : List Spot) : Except Error (Text × List Spot) :=
  let name := (spots.takeWhile fun s => isNameChar s.char).map Spot.char
  match spots.dropWhile fun s => isNameChar s.char with
  | [] => .ok (name, [])
  | s :: rest =>
    if name.isEmpty || !endsName s.char then
      .error ((Cause.noName isAlias s.char).within start s.mark)
    else .ok (name, s :: rest)

/-- Whether a code point may start a plain scalar, by what comes after it. -/
def startsPlain (flow : Bool) (c next : CodePoint) : Bool :=
  !(isGap c || isFlowMark c || c = '-' || c = '?' || c = ':' || c = '#' || c = '&' || c = '*' ||
      c = '!' || c = '|' || c = '>' || c = '\'' || c = '"' || c = '%' || c = '@' || c = 0x60) ||
    (!isGap next && (c = '-' || (!flow && (c = '?' || c = ':'))))

/-- An indicator of one code point. -/
def indicator? (st : Scan) (s : Spot) (after : CodePoint) : Option (Except Error Scan) :=
  if s.char = '[' then some (st.openFlow s .flowSequenceStart)
  else if s.char = '{' then some (st.openFlow s .flowMappingStart)
  else if s.char = ']' then some (st.closeFlow s .flowSequenceEnd)
  else if s.char = '}' then some (st.closeFlow s .flowMappingEnd)
  else if s.char = ',' then some (st.flowEntry s)
  else if s.char = '-' && isGap after then some (st.blockEntry s)
  else if s.char = ':' && (st.inFlow || isGap after) then some (st.value s)
  else none

/-- An anchor, an alias or a scalar, and whether a line has ended after it. -/
def content (st : Scan) (s : Spot) (rest : List Spot) (after : CodePoint) :
    Except Error (Lexeme × Bool × List Spot) :=
  if s.char = '*' then
    match name true s.mark rest with
    | .ok (name, rest) => .ok (.aliasOf name, false, rest)
    | .error e => .error e
  else if s.char = '&' then
    match name false s.mark rest with
    | .ok (name, rest) => .ok (.anchor name, false, rest)
    | .error e => .error e
  else if s.char = '"' || s.char = '\'' then
    match quotedRest (s.char = '"') s.mark [] rest with
    | .ok (text, rest) => .ok (.scalar false text, false, rest)
    | .error e => .error e
  else if startsPlain st.inFlow s.char after then
    let (text, broke, rest) := plain st.inFlow (st.indent + 1) s rest
    .ok (.scalar true text, broke, rest)
  else .error ((Cause.noToken s.char).at s.mark)

def next (st : Scan) (s : Spot) (rest : List Spot) : Except Error (Scan × List Spot) :=
  let after := (rest.head?.map Spot.char).getD 0
  if s.column = 0 && (s.char = '-' || s.char = '.') && isMarkerUnknown (s :: rest) then .ok (st, [])
  else if s.column = 0 && isMarker '-' (s :: rest) then
    (st.marker s .documentStart).map (·, rest.drop 2)
  else if s.column = 0 && isMarker '.' (s :: rest) then
    (st.marker s .documentEnd).map (·, rest.drop 2)
  else
    match st.indicator? s after with
    | some result => result.map (·, rest)
    | none =>
      match st.saveCandidate s with
      | .error e => .error e
      | .ok saved =>
        match st.content s rest after with
        | .error e => .error e
        | .ok (lexeme, keyAllowed, rest) =>
          .ok ({ saved with keyAllowed }.push lexeme s.mark, rest)

theorem map_pair {α β γ : Type} {x : Except γ α} {b b' : β} {a : α}
    (h : x.map (·, b) = .ok (a, b')) : b' = b := by
  cases x with
  | error => cases h
  | ok => cases h; rfl

theorem name_length {isAlias : Bool} {start : Mark} {spots rest : List Spot} {text : Text}
    (h : name isAlias start spots = .ok (text, rest)) : rest.length ≤ spots.length := by
  unfold name at h
  simp only at h
  split at h
  · cases h; simp
  · next s after heq =>
    have hdrop := dropWhile_length (fun s => isNameChar s.char) spots
    rw [heq] at hdrop
    split at h
    · cases h
    · cases h
      exact hdrop

theorem content_length {st : Scan} {s : Spot} {rest rest' : List Spot} {after : CodePoint}
    {lexeme : Lexeme} {keyAllowed : Bool}
    (h : st.content s rest after = .ok (lexeme, keyAllowed, rest')) :
    rest'.length ≤ rest.length := by
  unfold content at h
  split at h
  · split at h
    · next hname => cases h; exact name_length hname
    · cases h
  · split at h
    · split at h
      · next hname => cases h; exact name_length hname
      · cases h
    · split at h
      · split at h
        · next hquoted => cases h; exact quotedRest_length hquoted
        · cases h
      · split at h
        · cases h; exact plain_length ..
        · cases h

theorem next_length {st st' : Scan} {s : Spot} {rest rest' : List Spot}
    (h : st.next s rest = .ok (st', rest')) : rest'.length ≤ rest.length := by
  unfold next at h
  simp only at h
  split at h
  · cases h; simp
  split at h
  · rw [map_pair h]; exact (List.drop_sublist 2 rest).length_le
  · split at h
    · rw [map_pair h]; exact (List.drop_sublist 2 rest).length_le
    · split at h
      · exact Nat.le_of_eq (congrArg List.length (map_pair h))
      · split at h
        · cases h
        · split at h
          · cases h
          · next hcontent => cases h; exact content_length hcontent

/-- The end of the file ends all that is open. -/
def finish (st : Scan) (s : Spot) : Except Error Scan := do
  let st ← (st.unwind (-1) s.mark).dropCandidate s
  .ok ({ st with candidates := [] }.push .streamEnd s.mark)

/-- Whether an error stands whatever follows what is known: at the last code point only a missing
colon does. -/
def isSure (rest : List Spot) : Error → Bool
  | .malformed ⟨.keyWithoutColon, _, _⟩ => true
  | _ => !rest.isEmpty

/-- Takes the next token, and drops what is stale before it and after it. Nothing is left after the
end of the file, and where more of it has to be known to tell the token; then none is taken. -/
def fetch (st : Scan) (spots : List Spot) : Except Error (Scan × List Spot) :=
  match skip false false spots with
  | (_, []) => .ok (st, [])
  | (broke, s :: rest) =>
    let here := if broke && !st.inFlow then { st with keyAllowed := true } else st
    match here.dropStale s with
    | .error e => .error e
    | .ok here =>
      let here := here.unwind s.column s.mark
      if isEnd s.char then (here.finish s).map (·, [])
      else
        match here.next s rest with
        | .error e => if isSure rest e then .error e else .ok (st, [])
        | .ok (_, []) => .ok (st, [])
        | .ok (after, t :: rest) => (after.dropStale t).map (·, t :: rest)

theorem fetch_length {st st' : Scan} {spots rest : List Spot} (hne : spots ≠ [])
    (h : fetch st spots = .ok (st', rest)) : rest.length < spots.length := by
  have hpos := List.length_pos_iff.2 hne
  have hskip := skip_length false false spots
  unfold fetch at h
  split at h
  · cases h; exact hpos
  · next broke s after heq =>
    rw [heq, List.length_cons] at hskip
    simp only at h
    split at h
    · cases h
    · split at h
      · rw [map_pair h]; exact hpos
      · split at h
        · split at h
          · cases h
          · cases h; exact hpos
        · cases h; exact hpos
        · next hnext =>
          rw [map_pair h]
          exact Nat.lt_of_le_of_lt (next_length hnext) hskip

/-- The tokens of a file as far as they are settled, and the fault that ends them. -/
structure Tokens where
  settled : List Token
  fault : Option Error

/-- Takes all tokens from a place on. -/
def run (st : Scan) (spots : List Spot) : Tokens :=
  match spots with
  | [] => ⟨st.settled, none⟩
  | s :: rest =>
    match _h : st.fetch (s :: rest) with
    | .error e => ⟨st.settled, some e⟩
    | .ok (st, rest) => run st rest
termination_by spots.length
decreasing_by exact fetch_length (List.cons_ne_nil _ _) _h

end Scan

/-- The spots that are known of a file. -/
def Source.spots (source : Source) : List Spot :=
  match source.fault with
  | none => Yaml.spots source.text
  | some _ => (Yaml.spots source.text).dropLast

def Source.tokens (source : Source) : Scan.Tokens :=
  let tokens := Scan.run {} source.spots
  { tokens with fault := tokens.fault <|> source.fault }

end FluentFixtures.Yaml
