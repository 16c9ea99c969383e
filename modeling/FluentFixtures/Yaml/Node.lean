import FluentFixtures.Yaml.Token

/-!
# Nodes of a configuration file

The parser is a machine over tokens, like the reader of documents. A frame is a
collection that is open around this place and what the next node is in it; the
state says what may come next. Many places may be left empty: the token that
follows tells, and then stands for itself. A node with an anchor is kept apart
under its name, and the name stands in its place and for every alias; so a
collection may contain itself.
-/

namespace FluentFixtures.Yaml

/-- A node: a scalar, plain or quoted, or a collection, where it starts; or the name of one. -/
inductive Node where
  | scalar (mark : Mark) (plain : Bool) (text : Text)
  | seq (mark : Mark) (items : List Node)
  | map (mark : Mark) (entries : List (Node × Node))
  | named (name : Text)
  deriving Repr, Inhabited

/-- The nodes that have names. -/
abbrev Nodes := List (Text × Node)

/-- A root, unless the file has none, and the nodes with names. -/
structure Graph where
  root : Option Node
  nodes : Nodes

/-- An anchor where it stands. -/
structure Anchor where
  name : Text
  mark : Mark

/-- The token that opens a collection: where it stands, and the anchor before it. -/
structure Opening where
  mark : Mark
  anchor : Option Anchor

/-- Where a node starts whose first token, its anchor apart, stands at a mark. -/
def startOf (anchor : Option Anchor) (mark : Mark) : Mark := (anchor.map Anchor.mark).getD mark

def Opening.start (o : Opening) : Mark := startOf o.anchor o.mark

/-- What stands in an empty place. -/
def Node.empty (mark : Mark) : Node := .scalar mark true []

/-- A collection that is open, with its items or entries in reverse, and the part of it that the
next node is. A pair is a mapping of one entry in a flow sequence. -/
inductive Frame where
  | blockItem (opening : Opening) (items : List Node)
  | indentlessItem (opening : Opening) (items : List Node)
  | blockKey (opening : Opening) (entries : List (Node × Node))
  | blockValue (opening : Opening) (entries : List (Node × Node)) (key : Node)
  | flowItem (opening : Opening) (items : List Node)
  | pairKey (opening : Opening) (items : List Node) (pair : Mark)
  | pairValue (opening : Opening) (items : List Node) (pair : Mark) (key : Node)
  | flowKey (opening : Opening) (entries : List (Node × Node))
  | flowLone (opening : Opening) (entries : List (Node × Node))
  | flowValue (opening : Opening) (entries : List (Node × Node)) (key : Node)

/-- What may come next. -/
inductive State where
  /-- The file has just started. -/
  | start
  /-- A node, which may be empty. -/
  | node (outer : List Frame)
  /-- The node that an anchor names, which may be empty. -/
  | anchored (anchor : Anchor) (outer : List Frame)
  /-- A dash or the end of a block sequence. -/
  | blockSequence (opening : Opening) (items : List Node) (outer : List Frame)
  /-- A dash; a sequence without indentation ends at anything else. -/
  | indentless (opening : Opening) (items : List Node) (outer : List Frame)
  /-- The colon after a key. -/
  | afterBlockKey (opening : Opening) (entries : List (Node × Node)) (key : Node)
      (outer : List Frame)
  /-- A key or the end of a block mapping. -/
  | blockMapping (opening : Opening) (entries : List (Node × Node)) (outer : List Frame)
  /-- An item or the end of a flow sequence. -/
  | flowSequence (opening : Opening) (items : List Node) (outer : List Frame)
  /-- A comma or the end of a flow sequence. -/
  | afterFlowItem (opening : Opening) (items : List Node) (outer : List Frame)
  /-- The colon after the key of a pair. -/
  | afterPairKey (opening : Opening) (items : List Node) (pair : Mark) (key : Node)
      (outer : List Frame)
  /-- An entry or the end of a flow mapping. -/
  | flowMapping (opening : Opening) (entries : List (Node × Node)) (outer : List Frame)
  /-- The colon after a key of a flow mapping. -/
  | afterFlowKey (opening : Opening) (entries : List (Node × Node)) (key : Node)
      (outer : List Frame)
  /-- A comma or the end of a flow mapping. -/
  | afterFlowEntry (opening : Opening) (entries : List (Node × Node)) (outer : List Frame)
  /-- The end of the document or of the file. -/
  | afterRoot (root : Node)
  /-- Nothing more. -/
  | finished (root : Option Node)

/-- The anchors and the named nodes so far, and what may come next. A collection that is open has
an anchor and no node yet. -/
structure Parse where
  anchors : List Anchor := []
  nodes : Nodes := []
  state : State := .start

namespace Parse

def give (n : Node) : List Frame → State
  | [] => .afterRoot n
  | .blockItem o items :: outer => .blockSequence o (n :: items) outer
  | .indentlessItem o items :: outer => .indentless o (n :: items) outer
  | .blockKey o entries :: outer => .afterBlockKey o entries n outer
  | .blockValue o entries key :: outer => .blockMapping o ((key, n) :: entries) outer
  | .flowItem o items :: outer => .afterFlowItem o (n :: items) outer
  | .pairKey o items pair :: outer => .afterPairKey o items pair n outer
  | .pairValue o items pair key :: outer => .afterFlowItem o (.map pair [(key, n)] :: items) outer
  | .flowKey o entries :: outer => .afterFlowKey o entries n outer
  | .flowLone o entries :: outer => .afterFlowEntry o ((n, .empty o.mark) :: entries) outer
  | .flowValue o entries key :: outer => .afterFlowEntry o ((key, n) :: entries) outer

/-- Gives a node that is complete, under its name if it has one. -/
def complete (p : Parse) (anchor : Option Anchor) (n : Node) (outer : List Frame) : Parse :=
  match anchor with
  | some a => { p with nodes := (a.name, n) :: p.nodes, state := give (.named a.name) outer }
  | none => { p with state := give n outer }

def endSequence (p : Parse) (o : Opening) (items : List Node) (outer : List Frame) : Parse :=
  p.complete o.anchor (.seq o.start items.reverse) outer

def endMapping (p : Parse) (o : Opening) (entries : List (Node × Node)) (outer : List Frame) :
    Parse :=
  p.complete o.anchor (.map o.start entries.reverse) outer

def anchor? (p : Parse) (name : Text) : Option Anchor := p.anchors.find? fun a => a.name = name

/-- Where a node starts. -/
def startOfNode (p : Parse) : Node → Mark
  | .scalar mark _ _ => mark
  | .seq mark _ => mark
  | .map mark _ => mark
  | .named name => ((p.anchor? name).map Anchor.mark).getD ⟨0, 0⟩

/-- Whether a token in the place of a node says that the node is empty. -/
def isLeftEmpty : List Frame → Lexeme → Bool
  | [], t => t = .documentStart || t = .documentEnd || t = .streamEnd
  | .blockItem .. :: _, t => t = .blockEntry || t = .blockEnd
  | .indentlessItem .. :: _, t => t = .blockEntry || t = .key || t = .value || t = .blockEnd
  | .blockKey .. :: _, t => t = .key || t = .value || t = .blockEnd
  | .blockValue .. :: _, t => t = .key || t = .value || t = .blockEnd
  | .flowItem .. :: _, _ => false
  | .pairKey .. :: _, t => t = .value || t = .flowEntry || t = .flowSequenceEnd
  | .pairValue .. :: _, t => t = .flowEntry || t = .flowSequenceEnd
  | .flowKey .. :: _, t => t = .value || t = .flowEntry || t = .flowMappingEnd
  | .flowLone .. :: _, _ => false
  | .flowValue .. :: _, t => t = .flowEntry || t = .flowMappingEnd

/-- Whether block collections may stand here. -/
def allowsBlock : List Frame → Bool
  | [] => true
  | .blockItem .. :: _ => true
  | .indentlessItem .. :: _ => true
  | .blockKey .. :: _ => true
  | .blockValue .. :: _ => true
  | _ => false

/-- Whether a sequence without indentation may stand here. -/
def allowsIndentless : List Frame → Bool
  | .blockKey .. :: _ => true
  | .blockValue .. :: _ => true
  | _ => false

/-- The state after a token that opens a collection. -/
def opened? (o : Opening) (outer : List Frame) : Lexeme → Option State
  | .flowSequenceStart => some (.flowSequence o [] outer)
  | .flowMappingStart => some (.flowMapping o [] outer)
  | .blockSequenceStart => if allowsBlock outer then some (.blockSequence o [] outer) else none
  | .blockMappingStart => if allowsBlock outer then some (.blockMapping o [] outer) else none
  | .blockEntry =>
    if allowsIndentless outer then some (.node (.indentlessItem o [] :: outer)) else none
  | _ => none

/-- How many collections a frame is about. -/
def frameDepth : Frame → Nat
  | .pairKey .. => 2
  | .pairValue .. => 2
  | _ => 1

def depth (outer : List Frame) : Nat := outer.foldr (fun f n => frameDepth f + n) 0

/-- How deep collections may be nested. -/
def depthLimit : Nat := 485

/-- Takes the first token of a node, its anchor apart. -/
def begin (p : Parse) (anchor : Option Anchor) (outer : List Frame) (token : Token) :
    Except Error Parse :=
  match token.lexeme with
  | .scalar plain text =>
    .ok (p.complete anchor (.scalar (startOf anchor token.mark) plain text) outer)
  | lexeme =>
    match opened? ⟨token.mark, anchor⟩ outer lexeme with
    | some state => if depth outer < depthLimit then .ok { p with state } else .error .tooDeep
    | none =>
      .error ((Cause.noNode (allowsBlock outer) lexeme.name).within (startOf anchor token.mark)
        token.mark)

def beginNode (p : Parse) (outer : List Frame) (token : Token) : Except Error Parse :=
  match token.lexeme with
  | .aliasOf name =>
    match p.anchor? name with
    | some _ => .ok { p with state := give (.named name) outer }
    | none => .error ((Cause.unknownAlias name).at token.mark)
  | .anchor name => .ok { p with state := .anchored ⟨name, token.mark⟩ outer }
  | _ => p.begin none outer token

/-- Notes an anchor; its name may not be known yet. -/
def note (p : Parse) (anchor : Anchor) : Except Error Parse :=
  match p.anchor? anchor.name with
  | some first => .error ((Cause.repeatedAnchor anchor.name).within first.mark anchor.mark)
  | none => .ok { p with anchors := anchor :: p.anchors }

/-- Whether a token is the first one of a node, its anchor apart. -/
def beginsNode (outer : List Frame) (token : Token) : Bool :=
  match token.lexeme with
  | .scalar .. => true
  | lexeme => (opened? ⟨token.mark, none⟩ outer lexeme).isSome

/-- Gives an empty node where a token says that the node due is empty. -/
def leaveEmpty (p : Parse) (token : Token) : Except Error Parse :=
  match p.state with
  | .node outer =>
    .ok (if isLeftEmpty outer token.lexeme then p.complete none (.empty token.mark) outer else p)
  | .anchored a outer => do
    let p ← p.note a
    .ok (if beginsNode outer token then p else p.complete (some a) (.empty a.mark) outer)
  | _ => .ok p

/-- Ends a sequence without indentation at a token that is no dash. -/
def endIndentless (p : Parse) (token : Token) : Parse :=
  match p.state with
  | .indentless o items outer =>
    if token.lexeme = .blockEntry then p else p.endSequence o items outer
  | _ => p

def nextInBlockMapping (p : Parse) (o : Opening) (entries : List (Node × Node))
    (outer : List Frame) (token : Token) : Except Error Parse :=
  match token.lexeme with
  | .key => .ok { p with state := .node (.blockKey o entries :: outer) }
  | .blockEnd => .ok (p.endMapping o entries outer)
  | found => .error ((Cause.noBlockEntry found.name).within o.mark token.mark)

def nextAfterFlowItem (p : Parse) (o : Opening) (items : List Node) (outer : List Frame)
    (token : Token) : Except Error Parse :=
  match token.lexeme with
  | .flowEntry => .ok { p with state := .flowSequence o items outer }
  | .flowSequenceEnd => .ok (p.endSequence o items outer)
  | found => .error ((Cause.noFlowItem found.name).within o.mark token.mark)

def nextAfterFlowEntry (p : Parse) (o : Opening) (entries : List (Node × Node))
    (outer : List Frame) (token : Token) : Except Error Parse :=
  match token.lexeme with
  | .flowEntry => .ok { p with state := .flowMapping o entries outer }
  | .flowMappingEnd => .ok (p.endMapping o entries outer)
  | found => .error ((Cause.noFlowEntry found.name).within o.mark token.mark)

/-- Takes a token after the root: only the end of the document and of the file may come. -/
def nextAfterRoot (p : Parse) (root : Node) (token : Token) : Except Error Parse :=
  match token.lexeme with
  | .documentEnd => .ok p
  | .streamEnd => .ok { p with state := .finished (some root) }
  | .documentStart => .error (Cause.secondDocument.within (p.startOfNode root) token.mark)
  | found => .error ((Cause.noDocument found.name).at token.mark)

/-- Takes a token that is not left for the empty places before it. -/
def take (p : Parse) (token : Token) : Except Error Parse :=
  match p.state, token.lexeme with
  | .start, .streamEnd => .ok { p with state := .finished none }
  | .start, .documentStart => .ok { p with state := .node [] }
  | .start, _ => p.beginNode [] token
  | .node outer, _ => p.beginNode outer token
  | .anchored a outer, _ => p.begin (some a) outer token
  | .blockSequence o items outer, .blockEntry =>
    .ok { p with state := .node (.blockItem o items :: outer) }
  | .blockSequence o items outer, .blockEnd => .ok (p.endSequence o items outer)
  | .blockSequence o _ _, found =>
    .error ((Cause.noBlockItem found.name).within o.mark token.mark)
  | .indentless o items outer, _ => .ok { p with state := .node (.indentlessItem o items :: outer) }
  | .afterBlockKey o entries key outer, .value =>
    .ok { p with state := .node (.blockValue o entries key :: outer) }
  | .afterBlockKey o entries key outer, _ =>
    p.nextInBlockMapping o ((key, .empty token.mark) :: entries) outer token
  | .blockMapping o entries outer, _ => p.nextInBlockMapping o entries outer token
  | .flowSequence o items outer, .flowSequenceEnd => .ok (p.endSequence o items outer)
  | .flowSequence o items outer, .key =>
    .ok { p with state := .node (.pairKey o items token.mark :: outer) }
  | .flowSequence o items outer, _ => p.beginNode (.flowItem o items :: outer) token
  | .afterFlowItem o items outer, _ => p.nextAfterFlowItem o items outer token
  | .afterPairKey o items pair key outer, .value =>
    .ok { p with state := .node (.pairValue o items pair key :: outer) }
  | .afterPairKey o items pair key outer, _ =>
    p.nextAfterFlowItem o (.map pair [(key, .empty token.mark)] :: items) outer token
  | .flowMapping o entries outer, .flowMappingEnd => .ok (p.endMapping o entries outer)
  | .flowMapping o entries outer, .key => .ok { p with state := .node (.flowKey o entries :: outer) }
  | .flowMapping o entries outer, _ => p.beginNode (.flowLone o entries :: outer) token
  | .afterFlowKey o entries key outer, .value =>
    .ok { p with state := .node (.flowValue o entries key :: outer) }
  | .afterFlowKey o entries key outer, _ =>
    p.nextAfterFlowEntry o ((key, .empty token.mark) :: entries) outer token
  | .afterFlowEntry o entries outer, _ => p.nextAfterFlowEntry o entries outer token
  | .afterRoot root, _ => p.nextAfterRoot root token
  | .finished _, _ => .ok p

def step (p : Parse) (token : Token) : Except Error Parse := do
  let p ← p.leaveEmpty token
  (p.endIndentless token).take token

/-- The root, once all tokens are taken. -/
def root? (p : Parse) : Option Node :=
  match p.state with
  | .finished root => root
  | _ => none

end Parse

/-- The graph that tokens make up. What the parser refuses comes before the fault that ends the
tokens. -/
def Graph.ofTokens (tokens : Scan.Tokens) : Except Error Graph := do
  let p ← tokens.settled.foldlM Parse.step {}
  match tokens.fault with
  | some e => .error e
  | none => .ok { root := p.root?, nodes := p.nodes }

end FluentFixtures.Yaml
