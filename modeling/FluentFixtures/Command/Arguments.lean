import FluentFixtures.Text.Basic

/-!
# The command line

A command line has switches for the program, the name of a command, and the
switches and operands of that command. A switch that takes a value finds it
after an equals sign or in the next word; the short one may have it attached. Of
a switch given more than once the last value counts. After `--` all words are
operands.
-/

namespace FluentFixtures.Command

inductive Switch where
  | version
  | help
  | config
  | check
  | keepBlankLines
  deriving DecidableEq, Repr

namespace Switch

def long : Switch → Text
  | version => "--version"
  | help => "--help"
  | config => "--config"
  | check => "--check"
  | keepBlankLines => "--keep-blank-lines"

def takesValue : Switch → Bool
  | config => true
  | _ => false

/-- The letter of the one short switch, which names a configuration file. -/
def configLetter : CodePoint := 'c'

end Switch

inductive UsageError where
  | unknownSwitch (word : Text)
  | missingValue (switch : Switch)
  | unwantedValue (switch : Switch)
  | missingCommand
  | unknownCommand (name : Text)
  | extraOperand (word : Text)
  | noDirectory (path : Text)
  deriving DecidableEq, Repr

def UsageError.message : UsageError → Text
  | unknownSwitch word => ("No such option: " : Text) ++ word
  | missingValue switch => ("Option '" : Text) ++ switch.long ++ ("' requires an argument." : Text)
  | unwantedValue switch =>
    ("Option '" : Text) ++ switch.long ++ ("' does not take a value." : Text)
  | missingCommand => "Missing command."
  | unknownCommand name => ("No such command '" : Text) ++ name ++ ("'." : Text)
  | extraOperand word => ("Got unexpected extra argument (" : Text) ++ word ++ (")" : Text)
  | noDirectory path =>
    ("Invalid value for '[DIRECTORY]': Directory '" : Text) ++ path ++ ("' does not exist." : Text)

/-- The pages of help. -/
inductive Topic where
  | program
  | normalize
  | rules
  deriving DecidableEq, Repr

inductive Request where
  | version
  | help (topic : Topic)
  | normalize (directory : Text) (config : Option Text) (check keepBlankLines : Bool)
  | rules (config : Option Text)
  deriving DecidableEq, Repr

def Request.paths : Request → List Text
  | normalize directory config _ _ => directory :: config.toList
  | rules config => config.toList
  | _ => []

/-- The switches of a command line with their values, and its operands. -/
structure Words where
  switches : List (Switch × Text)
  operands : List Text

namespace Words

def give (switch : Switch) (value : Text) (words : Words) : Words :=
  { words with switches := (switch, value) :: words.switches }

def operand (word : Text) (words : Words) : Words :=
  { words with operands := word :: words.operands }

def has (words : Words) (switch : Switch) : Bool := words.switches.any (·.1 = switch)

/-- The last value of a switch, if it says something. -/
def value? (words : Words) (switch : Switch) : Option Text :=
  match (words.switches.filter (·.1 = switch)).getLast? with
  | some (_, value) => if value.isEmpty then none else some value
  | none => none

end Words

def dash : CodePoint := '-'

def equals : CodePoint := '='

/-- After this word all words are operands. -/
def endOfSwitches : Text := [dash, dash]

def isSwitch (word : Text) : Bool := word.head? = some dash && word.length > 1

/-- A word as the name of a switch and the value after an equals sign. -/
def cutValue (word : Text) : Text × Option Text :=
  (word.takeWhile (· ≠ equals),
    match word.dropWhile (· ≠ equals) with
    | [] => none
    | _ :: value => some value)

/-- The switch that a word is, with the value in the word. -/
def readSwitch (allowed : List Switch) (word : Text) : Except UsageError (Switch × Option Text) :=
  let (name, value) := cutValue word
  match allowed.find? fun switch => switch.long = name with
  | some switch =>
    if value.isSome && !switch.takesValue then .error (.unwantedValue switch)
    else .ok (switch, value)
  | none =>
    match word with
    | _ :: letter :: attached =>
      if letter = Switch.configLetter && allowed.contains .config then
        .ok (.config, if attached.isEmpty then none else some attached)
      else .error (.unknownSwitch word)
    | _ => .error (.unknownSwitch word)

/-- Sorts words into switches and operands. With `stops`, all words from the first operand on are
operands. -/
def readWords (allowed : List Switch) (stops : Bool) : List Text → Except UsageError Words
  | [] => .ok ⟨[], []⟩
  | word :: rest =>
    if word = endOfSwitches then .ok ⟨[], rest⟩
    else if isSwitch word then
      match readSwitch allowed word with
      | .error e => .error e
      | .ok (switch, some value) => (readWords allowed stops rest).map (·.give switch value)
      | .ok (switch, none) =>
        if switch.takesValue then
          match rest with
          | [] => .error (.missingValue switch)
          | value :: rest => (readWords allowed stops rest).map (·.give switch value)
        else (readWords allowed stops rest).map (·.give switch [])
    else if stops then .ok ⟨[], word :: rest⟩
    else (readWords allowed stops rest).map (·.operand word)

def normalizeCommand : Text := "normalize"

def rulesCommand : Text := "rules"

def readNormalize (args : List Text) : Except UsageError Request := do
  let words ← readWords [.config, .check, .keepBlankLines, .help] false args
  if words.has .help then .ok (.help .normalize)
  else
    let request (directory : Text) : Request :=
      .normalize directory (words.value? .config) (words.has .check) (words.has .keepBlankLines)
    match words.operands with
    | [] => .ok (request ".")
    | [directory] => .ok (request directory)
    | _ :: extra :: _ => .error (.extraOperand extra)

def readRules (args : List Text) : Except UsageError Request := do
  let words ← readWords [.config, .help] false args
  if words.has .help then .ok (.help .rules)
  else
    match words.operands with
    | [] => .ok (.rules (words.value? .config))
    | extra :: _ => .error (.extraOperand extra)

/-- The switches of the program; the first one given is what is asked for. -/
def programRequest? (words : Words) : Option Request :=
  match words.switches with
  | (.version, _) :: _ => some .version
  | _ :: _ => some (.help .program)
  | [] => none

def readProgram (args : List Text) : Except UsageError Words :=
  readWords [.version, .help] true args

/-- A word in the place of a command that is none may still be a switch of the program, although
`--` stands before it. -/
def readMisplaced (name : Text) (args : List Text) : Except UsageError Request := do
  match programRequest? (← readProgram args) with
  | some request => .ok request
  | none => .error (.unknownCommand name)

def Request.ofArguments (args : List Text) : Except UsageError Request := do
  let words ← readProgram args
  match programRequest? words, words.operands with
  | some request, _ => .ok request
  | none, [] => .error .missingCommand
  | none, name :: rest =>
    if name = normalizeCommand then readNormalize rest
    else if name = rulesCommand then readRules rest
    else readMisplaced name (name :: rest)

end FluentFixtures.Command
