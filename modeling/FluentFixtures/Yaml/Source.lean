import FluentFixtures.Text.Stream
import FluentFixtures.Yaml.Fault

/-!
# The text of a configuration file

A file that is UTF-8 and holds only code points it may hold is its text, with a
line feed for every line end. Any other file is read in portions, the first two
together, up to the one with a fault; what comes before that can be all that is
needed to refuse the file for another reason.
-/

namespace FluentFixtures.Yaml

/-- The text of a file as far as it can be read, and the fault that ends it. -/
structure Source where
  text : Text
  fault : Option Error := none

namespace Source

/-- The first code point of a portion that no file may hold, by its index. -/
def unacceptable? (index : Nat) : Text → Option Error
  | [] => none
  | c :: rest =>
    if isAllowed c then unacceptable? (index + 1) rest
    else some (Cause.at (.unacceptable c index) ⟨0, 0⟩)

/-- Adds the portions that are left to the text so far. -/
def addPortions (s : Stream) (text : Text) : Nat → Source
  | 0 => { text }
  | portions + 1 =>
    match s.portion with
    | .error fault => { text, fault := some (.encoding fault) }
    | .ok (portion, s) =>
      if portion.isEmpty then { text }
      else
        match unacceptable? text.length portion with
        | some e => { text, fault := some e }
        | none => addPortions s (text ++ portion) portions

/-- What can be read of a file with a fault. -/
def ofFaulty (bytes : Bytes) : Source :=
  let start : Except Utf8.Fault (Text × Stream) := do
    let (first, s) ← Stream.portion { bytes }
    let (second, s) ← s.portion
    .ok (first ++ second, s)
  match start with
  | .error fault => { text := [], fault := some (.encoding fault) }
  | .ok (portion, s) =>
    match unacceptable? 0 portion with
    | some e => { text := [], fault := some e }
    | none => addPortions s portion bytes.length

def ofBytes (bytes : Bytes) : Source :=
  match Utf8.decode bytes with
  | .ok t =>
    let t := Newline.unify t
    if t.all isAllowed then { text := t } else ofFaulty bytes
  | .error _ => ofFaulty bytes

end Source

end FluentFixtures.Yaml
