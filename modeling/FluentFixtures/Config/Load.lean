import FluentFixtures.Config.Basic
import FluentFixtures.Config.Indent
import FluentFixtures.ErrorClass

/-!
# Settings from a configuration file

A configuration is a mapping whose keys are the six setting names; settings it
leaves out keep their defaults, and so does a file that says nothing. A set is
given by anything that has parts: the items of a list, the keys of a mapping,
the code points of a text, the numbers of bytes. The settings are looked at in a fixed order, so that
of several faults the first one in it is told.
-/

namespace FluentFixtures.Config

inductive LoadError where
  | noMapping (kind : ValueKind)
  /-- Keys that name no setting, in order. -/
  | unknownKeys (keys : List Text)
  /-- The first of unknown keys in order, which is no text. -/
  | unknownKeyKind (kind : ValueKind)
  /-- Unknown keys that have no order. -/
  | unorderedKeys
  | noParts (kind : ValueKind)
  | noKey (kind : ValueKind)
  | noEntries (kind : ValueKind)
  | indent (error : IndentError)
  deriving DecidableEq, Repr

/-- What is said of a fault; keys without an order are not told. -/
def LoadError.message? : LoadError → Option Text
  | noMapping kind => some (("Config must be a mapping, got " : Text) ++ kind.shortName)
  | unknownKeys keys =>
    some (("Unknown config key(s): " : Text) ++ Text.joinWith (", " : Text) keys)
  | unknownKeyKind kind =>
    some (("sequence item 0: expected str instance, " : Text) ++ kind.name ++ (" found" : Text))
  | unorderedKeys => none
  | noParts kind => some (("'" : Text) ++ kind.name ++ ("' object is not iterable" : Text))
  | noKey kind => some (("unhashable type: '" : Text) ++ kind.name ++ ("'" : Text))
  | noEntries kind =>
    some (("'" : Text) ++ kind.name ++ ("' object has no attribute 'items'" : Text))
  | indent error => some error.message

def LoadError.errorClass : LoadError → ErrorClass
  | noMapping _ => .value
  | unknownKeys _ => .value
  | unknownKeyKind _ => .type
  | unorderedKeys => .type
  | noParts _ => .type
  | noKey _ => .type
  | noEntries _ => .attribute
  | indent (.noNumber _) => .type
  | indent .infinite => .overflow
  | indent _ => .value

/-- The names of settings. -/
def unambiguousKey : Text := "unambiguous_types"
def exemptKey : Text := "exempt_parent_keys"
def positionalKey : Text := "positional_types"
def keepBlankLinesKey : Text := "keep_blank_lines"
def indentKey : Text := "indent"
def patternKey : Text := "pattern"

def settingKeys : List Text :=
  [unambiguousKey, exemptKey, positionalKey, keepBlankLinesKey, indentKey, patternKey]

def isSettingKey (key : Key) : Bool := settingKeys.any fun name => key = .str name

/-- The value as a member of a set. -/
def keyOf : Value → Except LoadError Key
  | .scalar s => .ok (.scalar s)
  | .bytes b => .ok (.bytes b)
  | .date day => .ok (.date day)
  | .moment m => .ok (.moment m)
  | .pair a b => do .ok (.pair (← keyOf a) (← keyOf b))
  | v => .error (.noKey v.kind)

/-- A byte as a member of a set, which is a number. -/
def keyOfByte (b : UInt8) : Key := .int b.toNat

/-- The members of a set. -/
def partsOf (v : Value) : Except LoadError (List Key) :=
  if v.isEmpty then .ok []
  else match v with
    | .scalar (.str t) => .ok (t.map fun c => .str [c])
    | .bytes b => .ok (b.map keyOfByte)
    | .list items => items.mapM keyOf
    | .pair a b => [a, b].mapM keyOf
    | .set members => .ok members
    | .mapping entries => .ok (entries.map Prod.fst)
    | v => .error (.noParts v.kind)

def keySetOf (v : Value) : Except LoadError KeySet := (partsOf v).map KeySet.ofList

/-- The positional types: a set for each key. -/
def positionalOf (v : Value) : Except LoadError (KeyMap KeySet) :=
  if v.isEmpty then .ok []
  else match v with
    | .mapping entries =>
      entries.mapM fun entry => (keySetOf entry.2).map fun types => (entry.1, types)
    | v => .error (.noEntries v.kind)

def setting? (entries : List (Key × Value)) (name : Text) : Option Value :=
  (entries.find? fun entry => entry.1 = .str name).map Prod.snd

/-- What a setting gives, or its default if it is left out. -/
def settingOr {α : Type} (entries : List (Key × Value)) (name : Text) (default : α)
    (read : Value → Except LoadError α) : Except LoadError α :=
  match setting? entries name with
  | some v => read v
  | none => .ok default

def unknownKeysError (keys : List Key) : LoadError :=
  match KeySet.sort? keys with
  | none => .unorderedKeys
  | some sorted =>
    match sorted.find? fun key => !key.isString with
    | some key => .unknownKeyKind key.kind
    | none =>
      .unknownKeys (sorted.map fun key =>
        match key with
        | .str t => t
        | _ => [])

def settingsOfEntries (entries : List (Key × Value)) : Except LoadError Settings := do
  let base := Settings.default
  let unambiguous ← settingOr entries unambiguousKey base.rules.unambiguous keySetOf
  let exempt ← settingOr entries exemptKey base.rules.exempt keySetOf
  let positional ← settingOr entries positionalKey base.rules.positional positionalOf
  let keepBlankLines ←
    settingOr entries keepBlankLinesKey base.keepBlankLines fun v => .ok !v.isEmpty
  let indent ← settingOr entries indentKey base.indent fun v => (indentOf v).mapError .indent
  let pattern ← settingOr entries patternKey base.pattern .ok
  .ok { rules := { unambiguous, exempt, positional }, keepBlankLines, indent, pattern }

def settingsOf (v : Value) : Except LoadError Settings :=
  if v.isEmpty then .ok .default
  else match v with
    | .mapping entries =>
      match (entries.map Prod.fst).filter fun key => !isSettingKey key with
      | [] => settingsOfEntries entries
      | unknown => .error (unknownKeysError unknown)
    | v => .error (.noMapping v.kind)

end FluentFixtures.Config
