import FluentFixtures.Command.Run
import FluentFixtures.Json.Reader
import FluentFixtures.Json.Writer
import FluentFixtures.Proofs.Tree.Printable

/-!
# What is relied on of consoles

The console is a package. A lawful one shows every message whose markup is that of
its styles, whatever comes from outside: `Console.Lawful`. `Console.Shows` says how:
as it is if its text is ordinary and its lines fit, and in any case with the words
before what comes from outside in front, if they fit on a line. Documents are
printed with each part on a line of its own: `Console.PrintsJson`.
-/

namespace FluentFixtures

/-- Whether two colons have no space between them, so that they can spell the name of a picture. -/
def Text.hasPicture : Text → Bool
  | [] => false
  | c :: rest => (c = 0x3A && (rest.takeWhile (· ≠ 0x20)).contains 0x3A) || hasPicture rest

namespace Command

/-! ## Messages -/

/-- Whether a text of small letters names a style. -/
def IsStyle (s : Text) : Prop := s ≠ [] ∧ s.all (fun c => 0x61 ≤ c.val && c.val ≤ 0x7A) = true

instance (s : Text) : Decidable (IsStyle s) := inferInstanceAs (Decidable (_ ∧ _))

/-- Whether the markup of a span is that of its style, whatever comes from outside. -/
inductive Span.Sound : Span → Prop
  | mk {style outside : Option Text} {before after : Text}
    (hstyle : ∀ s ∈ style, IsStyle s)
    (hbefore : 0x5B ∉ before) (hlast : before.getLast? ≠ some 0x5C)
    (hafter : 0x5B ∉ after ∧ 0x5D ∉ after) (hend : after.getLast? ≠ some 0x5C)
    (houtside : outside = none ∨ after ≠ []) : Sound ⟨style, before, outside, after⟩

namespace Message

/-- Whether a text from outside is alone in its style, or the last one. -/
def Apart (last : Option Text) : List Span → Prop
  | [] => True
  | span :: rest =>
    (span.style = none → span.outside ≠ none → rest = [] ∧ last = none) ∧ Apart last rest

structure Sound (message : Message) : Prop where
  spans : ∀ span ∈ message.spans, span.Sound
  apart : Apart message.last message.spans

/-- What stands before all that comes from outside. -/
def opening (message : Message) : Text := (message.spans.head?.map Span.before).getD []

/-- Whether the text of a message is shown as it is: no text from outside has backslashes, and there
are no control codes but line feeds, no left brackets and no names of pictures. -/
structure Ordinary (message : Message) : Prop where
  points : ∀ c ∈ message.plain, (c = 0x0A ∨ 0x20 ≤ c.val) ∧ c ≠ 0x5B
  spans : ∀ span ∈ message.spans, ∀ t, span.outside = some t → 0x5C ∉ t
  last : ∀ t, message.last = some t → 0x5C ∉ t
  pictures : message.plain.hasPicture = false

/-- Whether the text of a message has bytes. -/
def Encodable (message : Message) : Prop := ∀ c ∈ message.plain, c.isSurrogate = false

instance (message : Message) : Decidable message.Encodable :=
  decidable_of_iff (message.plain.all fun c => !c.isSurrogate) (by simp [Encodable])

end Message

/-! ## Consoles -/

namespace Console

/-- Whether a line fits. -/
def HasRoom (console : Console) (line : Text) : Prop :=
  console.cells line ≤ console.width ∧ line.length ≤ console.width

instance (console : Console) (line : Text) : Decidable (console.HasRoom line) :=
  inferInstanceAs (Decidable (_ ∧ _))

def Fits (console : Console) (t : Text) : Prop := ∀ line ∈ Text.splitOn 0x0A t, console.HasRoom line

/-- How a message is shown. -/
structure Shows (console : Console) (message : Message) (output : Text) : Prop where
  printed : console.say message = .ok output
  line : message.Ordinary → console.Fits message.plain → output = message.plain ++ ("\n" : Text)
  /-- Words at the start of a message that fit on a line are its start. -/
  start : ∀ words more, message.opening = words ++ 0x20 :: more → words.PrintableAscii →
    0x3A ∉ words → words.head? ≠ some 0x20 → console.HasRoom words → words <+: output

theorem Shows.lastly_eq {console : Console} {message : Message} {output : Text}
    (h : console.Shows message output) (code : Nat) (fs : Files.FileSystem) :
    lastly (console.say message) code fs = ⟨output, .exit code, fs⟩ := by
  unfold lastly
  rw [h.printed]

/-- Whether messages are shown one after another. -/
inductive Prints (console : Console) : List Message → Text → Prop
  | nil : Prints console [] []
  | cons {message : Message} {messages : List Message} {output rest : Text}
    (hshows : console.Shows message output) (hprints : Prints console messages rest) :
    Prints console (message :: messages) (output ++ rest)

namespace Prints

variable {console : Console} {message : Message} {messages more : List Message} {output rest : Text}

theorem append (h : console.Prints messages output) (hmore : console.Prints more rest) :
    console.Prints (messages ++ more) (output ++ rest) := by
  induction h with
  | nil => exact hmore
  | cons hshows _ ih =>
    rw [List.append_assoc]
    exact .cons hshows ih

theorem concat (h : console.Prints messages output) (hshows : console.Shows message rest) :
    console.Prints (messages ++ [message]) (output ++ rest) := by
  have hlast := cons hshows nil
  rw [List.append_nil] at hlast
  exact h.append hlast

/-- Ordinary messages that fit are shown on lines of their own. -/
theorem lines (h : console.Prints messages output) (hordinary : ∀ m ∈ messages, m.Ordinary)
    (hfits : ∀ m ∈ messages, console.Fits m.plain) :
    output = messages.flatMap fun m => m.plain ++ ("\n" : Text) := by
  induction h with
  | nil => rfl
  | cons hshows _ ih =>
    obtain ⟨hmessage, hrest⟩ := List.forall_mem_cons.mp hordinary
    obtain ⟨hroom, hroomRest⟩ := List.forall_mem_cons.mp hfits
    rw [List.flatMap_cons, hshows.line hmessage hroom, ih hrest hroomRest]

end Prints

/-- What is relied on of a console. -/
structure Lawful (console : Console) : Prop where
  escape_adds : ∀ t, ∀ c ∈ console.escape t, c ∈ t ∨ c = 0x5C
  escape_unmarked : ∀ t : Text, 0x5B ∉ t → 0x5C ∉ t → console.escape t = t
  shows : ∀ message : Message, message.Sound → message.Encodable →
    ∃ output, console.Shows message output

/-- Whether documents of printable strings are printed with each part on its line. -/
def PrintsJson (console : Console) : Prop :=
  ∀ {document t}, Json.read document = .ok t → t.Printable →
    console.printJson document = .ok (Json.render 2 0 t ++ ("\n" : Text))

end Console

end Command

end FluentFixtures
