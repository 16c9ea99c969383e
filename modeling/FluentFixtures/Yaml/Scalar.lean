import FluentFixtures.Yaml.Fault

/-!
# The text of scalars

Scalars are plain or quoted; those in blocks of lines are not read.

Quoted scalars fold their line ends: one becomes a space, and of several all but
the first stay. Double quotes have escapes. A plain scalar ends before white
space with a comment or an indicator after it, and goes on over line ends while
it is indented. Where more of the file has to be known, nothing is left.
-/

namespace FluentFixtures.Yaml

/-! ## Quoted scalars -/

/-- The code point of an escape of one letter. -/
def shortEscape? (c : CodePoint) : Option CodePoint :=
  if c = '0' then some 0x00
  else if c = 'a' then some 0x07
  else if c = 'b' then some 0x08
  else if c = 't' || c = '\t' then some 0x09
  else if c = 'n' then some 0x0A
  else if c = 'v' then some 0x0B
  else if c = 'f' then some 0x0C
  else if c = 'r' then some 0x0D
  else if c = 'e' then some 0x1B
  else if c = ' ' || c = '"' || c = '\\' || c = '/' then some c
  else if c = 'N' then some 0x85
  else if c = '_' then some 0xA0
  else if c = 'L' then some 0x2028
  else if c = 'P' then some 0x2029
  else none

def escapeDigits? (c : CodePoint) : Option Nat :=
  if c = 'x' then some 2
  else if c = 'u' then some 4
  else if c = 'U' then some 8
  else none

/-- The number that the next `n` hexadecimal digits write, or what stands in the place of one. -/
def hexNumber (value : Nat) : Nat → List Spot → Except CodePoint (Nat × List Spot)
  | 0, spots => .ok (value, spots)
  | _ + 1, [] => .ok (0, [])
  | n + 1, s :: rest =>
    match s.char.hexValue? with
    | some d => hexNumber (value * 16 + d) n rest
    | none => .error s.char

def codePoint (n : Nat) : Except Error CodePoint :=
  if h : n < 0x110000 then .ok ⟨n, h⟩
  else if n < 0x80000000 then .error .noCodePoint
  else .error .hugeCodePoint

/-- The line ends of the lines from here on that have only blanks, in a scalar that starts at a
mark. -/
def blankLines (start : Mark) (lineStart : Bool) : List Spot → Except Error (Text × List Spot)
  | [] => .ok ([], [])
  | s :: rest =>
    if lineStart && isMarkerUnknown (s :: rest) then .ok ([], [])
    else if lineStart && isSeparator (s :: rest) then
      .error (Cause.markerInQuotes.within start s.mark)
    else if isBlank s.char then blankLines start false rest
    else if isBreak s.char then
      match blankLines start true rest with
      | .error e => .error e
      | .ok (breaks, rest) => .ok (breakText s.char ++ breaks, rest)
    else .ok ([], s :: rest)

/-- What a line end and the blank lines after it leave in a scalar. -/
def folded (lineEnd : CodePoint) (breaks : Text) : Text :=
  if breakText lineEnd ≠ [0x0A] then breakText lineEnd ++ breaks
  else if breaks.isEmpty then [0x20]
  else breaks

theorem hexNumber_length {value n code : Nat} {spots rest : List Spot}
    (h : hexNumber value n spots = .ok (code, rest)) : rest.length ≤ spots.length := by
  fun_induction hexNumber value n spots <;> grind

theorem blankLines_length {start : Mark} {lineStart : Bool} {spots rest : List Spot}
    {breaks : Text} (h : blankLines start lineStart spots = .ok (breaks, rest)) :
    rest.length ≤ spots.length := by
  fun_induction blankLines start lineStart spots generalizing breaks rest with
  | case1 => cases h; simp
  | case2 => cases h; simp
  | case3 => cases h
  | case4 lineStart s t _ _ _ ih => exact Nat.le_succ_of_le (ih h)
  | case5 => cases h
  | case6 lineStart s t _ _ _ _ breaks' rest' heq ih =>
    cases h
    exact Nat.le_succ_of_le (ih heq)
  | case7 => cases h; simp

theorem dropWhile_length {α : Type} (p : α → Bool) (l : List α) :
    (l.dropWhile p).length ≤ l.length :=
  (List.dropWhile_sublist p).length_le

/-- Reads the rest of a quoted scalar that starts at a mark, with what there is of it so far in
reverse. -/
def quotedRest (double : Bool) (start : Mark) (done : Text) (spots : List Spot) :
    Except Error (Text × List Spot) :=
  match spots with
  | [] => .ok (done.reverse, [])
  | s :: rest =>
    if isEnd s.char then .error (Cause.openQuote.within start s.mark)
    else if double && s.char = '"' then .ok (done.reverse, rest)
    else if !double && s.char = '\'' then
      match rest with
      | next :: rest' =>
        if next.char = '\'' then quotedRest double start (0x27 :: done) rest'
        else .ok (done.reverse, rest)
      | [] => .ok (done.reverse, rest)
    else if double && s.char = '\\' then
      match rest with
      | [] => .ok (done.reverse, [])
      | e :: rest =>
        match shortEscape? e.char with
        | some c => quotedRest double start (c :: done) rest
        | none =>
          match escapeDigits? e.char with
          | some n =>
            match _h : hexNumber 0 n rest with
            | .error c =>
              .error ((Cause.noHexDigit n c).within start ⟨e.line, e.column + 1⟩)
            | .ok (code, rest) =>
              match codePoint code with
              | .error e => .error e
              | .ok c => quotedRest double start (c :: done) rest
          | none =>
            if isBreak e.char then
              match _h : blankLines start true rest with
              | .error e => .error e
              | .ok (breaks, rest) => quotedRest double start (breaks.reverse ++ done) rest
            else .error ((Cause.unknownEscape e.char).within start e.mark)
    else if isBreak s.char then
      match _h : blankLines start true rest with
      | .error e => .error e
      | .ok (breaks, rest) =>
        quotedRest double start ((folded s.char breaks).reverse ++ done) rest
    else if isBlank s.char then
      let blanks := (rest.takeWhile fun s => isBlank s.char).map Spot.char
      let after := rest.dropWhile fun s => isBlank s.char
      if after.head?.any fun s => isBreak s.char then quotedRest double start done after
      else quotedRest double start (blanks.reverse ++ s.char :: done) after
    else quotedRest double start (s.char :: done) rest
termination_by spots.length
decreasing_by
  · simp only [List.length_cons]; omega
  · simp only [List.length_cons]; omega
  · have := hexNumber_length _h
    simp only [List.length_cons]
    omega
  · have := blankLines_length _h
    simp only [List.length_cons]
    omega
  · have := blankLines_length _h
    simp only [List.length_cons]
    omega
  · have := dropWhile_length (fun s => isBlank s.char) rest
    simp only [List.length_cons]
    omega
  · have := dropWhile_length (fun s => isBlank s.char) rest
    simp only [List.length_cons]
    omega
  · simp only [List.length_cons]; omega

/-! ## Plain scalars -/

/-- Whether a plain scalar ends before a code point, by what comes after it. -/
def plainEnds (flow : Bool) (s : Spot) (rest : List Spot) : Bool :=
  let next := (rest.head?.map Spot.char).getD 0
  isGap s.char || (s.char = ':' && (isGap next || (flow && isFlowMark next))) ||
    (flow && (isFlowMark s.char || s.char = '?'))

/-- The part of a plain scalar up to white space or its end. What follows a colon must be known. -/
def plainRun (flow : Bool) : List Spot → Text × List Spot
  | [] => ([], [])
  | s :: rest =>
    if s.char = ':' && rest.isEmpty then ([], [])
    else if plainEnds flow s rest then ([], s :: rest)
    else
      let (run, rest) := plainRun flow rest
      (s.char :: run, rest)

/-- The white space between two parts of a plain scalar: what it leaves in the scalar, whether a
line has ended, and whether a document marker follows. -/
structure PlainGap where
  text : Text
  broke : Bool
  separator : Bool

/-- The line ends from the start of a line on with only spaces between them. -/
def plainBlankLines (lineStart : Bool) : List Spot → Text × Bool × List Spot
  | [] => ([], false, [])
  | s :: rest =>
    if lineStart && isMarkerUnknown (s :: rest) then ([], false, [])
    else if lineStart && isSeparator (s :: rest) then ([], true, s :: rest)
    else if isSpace s.char then plainBlankLines false rest
    else if isBreak s.char then
      let (breaks, separator, rest) := plainBlankLines true rest
      (breakText s.char ++ breaks, separator, rest)
    else ([], false, s :: rest)

def plainGap (spots : List Spot) : PlainGap × List Spot :=
  let spaces := (spots.takeWhile fun s => isSpace s.char).map Spot.char
  match spots.dropWhile fun s => isSpace s.char with
  | [] => (⟨spaces, false, false⟩, [])
  | s :: rest =>
    if isBreak s.char then
      let (breaks, separator, rest) := plainBlankLines true rest
      (⟨folded s.char breaks, true, separator⟩, rest)
    else (⟨spaces, false, false⟩, s :: rest)

theorem plainRun_length (flow : Bool) (spots : List Spot) :
    (plainRun flow spots).1.length + (plainRun flow spots).2.length ≤ spots.length := by
  fun_induction plainRun flow spots with
  | case1 => simp
  | case2 => simp
  | case3 => simp
  | case4 s rest _ _ run rest' heq ih =>
    simp only [heq] at ih
    simp only [List.length_cons]
    omega

theorem plainBlankLines_length (lineStart : Bool) (spots : List Spot) :
    (plainBlankLines lineStart spots).2.2.length ≤ spots.length := by
  fun_induction plainBlankLines lineStart spots <;> simp_all <;> omega

theorem plainGap_length (spots : List Spot) : (plainGap spots).2.length ≤ spots.length := by
  have hdrop := dropWhile_length (fun s => isSpace s.char) spots
  unfold plainGap
  simp only
  split
  · simp
  · next s rest heq =>
    rw [heq, List.length_cons] at hdrop
    split
    · exact Nat.le_trans (plainBlankLines_length true rest) (Nat.le_of_lt hdrop)
    · exact hdrop

/-- Reads on after a part of a plain scalar, with what there is of it so far in reverse. The flag
of the result says that a line has ended after the scalar. -/
def plainRest (flow : Bool) (indent : Int) (done : Text) (spots : List Spot) :
    Text × Bool × List Spot :=
  match _h : plainGap spots with
  | (gap, []) => (done.reverse, gap.broke, [])
  | (gap, s :: rest) =>
    if gap.separator || gap.text.isEmpty || s.char = '#' || (!flow && s.column < indent) then
      (done.reverse, gap.broke, s :: rest)
    else
      match _h' : plainRun flow (s :: rest) with
      | ([], after) => (done.reverse, gap.broke, after)
      | (c :: run, after) =>
        plainRest flow indent (run.reverse ++ c :: gap.text.reverse ++ done) after
termination_by spots.length
decreasing_by
  have hgap := plainGap_length spots
  rw [_h] at hgap
  have hrun := plainRun_length flow (s :: rest)
  rw [_h'] at hrun
  simp only [List.length_cons] at hgap hrun
  omega

def plain (flow : Bool) (indent : Int) (s : Spot) (rest : List Spot) : Text × Bool × List Spot :=
  let run := plainRun flow rest
  plainRest flow indent (run.1.reverse ++ [s.char]) run.2

theorem plainRest_length (flow : Bool) (indent : Int) (done : Text) (spots : List Spot) :
    (plainRest flow indent done spots).2.2.length ≤ spots.length := by
  fun_induction plainRest flow indent done spots with
  | case1 => simp
  | case2 done spots gap s rest heq =>
    have := plainGap_length spots
    rw [heq] at this
    simpa using this
  | case3 done spots gap s rest heq _ rest' hrun =>
    have hgap := plainGap_length spots
    rw [heq] at hgap
    have hlength := plainRun_length flow (s :: rest)
    rw [hrun] at hlength
    simp only [List.length_nil] at hlength
    simp only at hgap ⊢
    omega
  | case4 done spots gap s rest heq _ c run rest' hrun ih =>
    have hgap := plainGap_length spots
    rw [heq] at hgap
    have hlength := plainRun_length flow (s :: rest)
    rw [hrun] at hlength
    simp only at hgap hlength
    omega

theorem plain_length (flow : Bool) (indent : Int) (s : Spot) (rest : List Spot) :
    (plain flow indent s rest).2.2.length ≤ rest.length := by
  have := plainRun_length flow rest
  have := plainRest_length flow indent ((plainRun flow rest).1.reverse ++ [s.char])
    (plainRun flow rest).2
  simp only [plain]
  omega

theorem quotedRest_length {double : Bool} {start : Mark} {done text : Text}
    {spots rest : List Spot} (h : quotedRest double start done spots = .ok (text, rest)) :
    rest.length ≤ spots.length := by
  fun_induction quotedRest double start done spots <;>
    grind [→ hexNumber_length, → blankLines_length, dropWhile_length]

end FluentFixtures.Yaml
