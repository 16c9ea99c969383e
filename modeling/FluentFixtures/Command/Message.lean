import FluentFixtures.Text.Basic

/-!
# Messages

A message is marked up: a span of it can have a style, which stands in brackets
before it and is closed after it. What comes from outside is escaped, so that it
is shown and not taken for markup; the console says how: `markup`. `plain` is the
message as it is meant to be read.
-/

namespace FluentFixtures.Command

/-- A part of a message in one style, with a text from outside in it. -/
structure Span where
  style : Option Text := none
  before : Text
  outside : Option Text := none
  after : Text := []

namespace Span

def opening (span : Span) : Text :=
  match span.style with
  | some style => 0x5B :: style ++ [0x5D]
  | none => []

def closing (span : Span) : Text := if span.style.isSome then "[/]" else []

def markup (escape : Text → Text) (span : Span) : Text :=
  span.opening ++ (span.before ++ ((span.outside.map escape).getD [] ++ span.after)) ++ span.closing

def plain (span : Span) : Text := span.before ++ (span.outside.getD [] ++ span.after)

end Span

/-- Spans, and after them perhaps a text from outside. -/
structure Message where
  spans : List Span
  last : Option Text := none

namespace Message

def markup (escape : Text → Text) (message : Message) : Text :=
  message.spans.flatMap (Span.markup escape) ++ (message.last.map escape).getD []

def plain (message : Message) : Text :=
  message.spans.flatMap Span.plain ++ message.last.getD []

/-! ## The messages of the program -/

def failedLoad (path fault : Text) : Message where
  spans := [{ style := some "red", before := "Failed to load config ", outside := path, after := ":" },
    { before := " " }]
  last := fault

/-- A directory without fixtures. The pattern is escaped already. -/
def nothing (pattern directory : Text) : Message where
  spans := [{ style := some "yellow"
              before := ("No files matching " : Text) ++ (pattern ++ (" in " : Text))
              outside := directory
              after := "." }]

def malformed (name fault : Text) : Message where
  spans := [{ style := some "red", before := "Failed to parse ", outside := name, after := ":" },
    { before := (" " : Text) ++ fault }]

def saved (name : Text) : Message where
  spans := [{ before := "The file \"", outside := name, after := "\" has been saved!" }]

def stale (name : Text) : Message where
  spans := [{ before := "  " }, { style := some "red", before := "x" },
    { before := " ", outside := name, after := " is not normalized" }]

def failedCheck (stale files : Nat) : Message where
  spans := [{ before := "\n" }, { style := some "red", before := "FAIL" },
    { before := (" " : Text) ++ Text.decimal stale ++ (" of " : Text) ++ Text.decimal files ++
        (" file(s) would change" : Text) }]

def passedCheck (files : Nat) : Message where
  spans := [{ style := some "green", before := "OK" },
    { before := (" " : Text) ++ Text.decimal files ++ (" file(s) already normalized" : Text) }]

example : (stale "a.json").markup id = ("  [red]x[/] a.json is not normalized" : Text) := by
  decide

end Message

end FluentFixtures.Command
