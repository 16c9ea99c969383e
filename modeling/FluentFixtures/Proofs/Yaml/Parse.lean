import FluentFixtures.Proofs.Faults
import FluentFixtures.Proofs.Yaml.Flow
import FluentFixtures.Yaml.Value

/-!
# Parsing trees

The tokens of a tree, where a node may come, give the parser the node that
spells the tree, unless it is nested too deeply: `steps_lexemes`.
-/

namespace FluentFixtures

namespace Yaml

open Config (textOf)

mutual

/-- Whether a node spells a tree of strings. -/
def Spells : Tree → Node → Prop
  | .leaf value, n => ∃ mark, n = .scalar mark false (textOf value)
  | .seq items, n => ∃ mark nodes, n = .seq mark nodes ∧ SpellsItems items nodes
  | .keyed fields, n => ∃ mark entries, n = .map mark entries ∧ SpellsFields fields entries

def SpellsItems : List Tree → List Node → Prop
  | [], nodes => nodes = []
  | t :: rest, nodes => ∃ n more, nodes = n :: more ∧ Spells t n ∧ SpellsItems rest more

def SpellsFields : List (Text × Tree) → List (Node × Node) → Prop
  | [], entries => entries = []
  | (name, t) :: rest, entries =>
    ∃ mark n more, entries = (.scalar mark false name, n) :: more ∧ Spells t n ∧
      SpellsFields rest more

end

namespace Parse

variable {p p' p'' : Parse} {tokens tokens' : List Token} {token : Token} {outer : List Frame}

/-! ## Steps -/

/-- Whether tokens lead the parser from one state to another. -/
def Steps (p : Parse) (tokens : List Token) (p' : Parse) : Prop :=
  tokens.foldlM step p = .ok p'

theorem Steps.append (h : p.Steps tokens p') (h' : p'.Steps tokens' p'') :
    p.Steps (tokens ++ tokens') p'' := by
  unfold Steps at *
  rw [List.foldlM_append, h]
  exact h'

theorem steps_single (h : p.step token = .ok p') : p.Steps [token] p' := by
  rw [Steps, List.foldlM_cons, h]
  rfl

/-- Whether the next token may be the first one of a node, and in which frames. -/
inductive Awaits : State → List Frame → Prop
  | start : Awaits .start []
  | node (outer : List Frame) : Awaits (.node outer) outer
  | item (o : Opening) (items : List Node) (outer : List Frame) :
    Awaits (.flowSequence o items outer) (.flowItem o items :: outer)

/-- The first tokens of nodes of a tree. -/
def BeginsTree : Lexeme → Prop
  | .scalar _ _ => True
  | .flowSequenceStart => True
  | .flowMappingStart => True
  | _ => False

theorem isLeftEmpty_eq_false {lexeme : Lexeme} (h : BeginsTree lexeme) (outer : List Frame) :
    isLeftEmpty outer lexeme = false := by
  have hne : lexeme ≠ .documentStart ∧ lexeme ≠ .documentEnd ∧ lexeme ≠ .streamEnd ∧
      lexeme ≠ .blockEntry ∧ lexeme ≠ .blockEnd ∧ lexeme ≠ .key ∧ lexeme ≠ .value ∧
      lexeme ≠ .flowEntry ∧ lexeme ≠ .flowSequenceEnd ∧ lexeme ≠ .flowMappingEnd := by
    refine ⟨?_, ?_, ?_, ?_, ?_, ?_, ?_, ?_, ?_, ?_⟩ <;> rintro rfl <;> exact h
  obtain ⟨h1, h2, h3, h4, h5, h6, h7, h8, h9, h10⟩ := hne
  unfold isLeftEmpty
  split <;> simp [*]

theorem beginNode_eq (h : BeginsTree token.lexeme) :
    p.beginNode outer token = p.begin none outer token := by
  unfold beginNode
  split
  · next heq =>
    rw [heq] at h
    exact h.elim
  · next heq =>
    rw [heq] at h
    exact h.elim
  · rfl

theorem step_of_awaits (hstate : Awaits p.state outer) (htoken : BeginsTree token.lexeme) :
    p.step token = p.begin none outer token := by
  obtain ⟨anchors, nodes, state⟩ := p
  have hempty := isLeftEmpty_eq_false htoken outer
  cases hstate with
  | start =>
    have htake : Parse.take ⟨anchors, nodes, .start⟩ token =
        Parse.beginNode ⟨anchors, nodes, .start⟩ [] token := by
      obtain ⟨lexeme, mark⟩ := token
      cases lexeme <;> first | rfl | exact htoken.elim
    exact htake.trans (beginNode_eq htoken)
  | node outer =>
    have hleave : Parse.leaveEmpty ⟨anchors, nodes, .node outer⟩ token =
        .ok ⟨anchors, nodes, .node outer⟩ := by
      simp only [leaveEmpty, hempty, Bool.false_eq_true, if_false]
    rw [step, hleave]
    exact beginNode_eq htoken
  | item o items outer =>
    have htake : Parse.take ⟨anchors, nodes, .flowSequence o items outer⟩ token =
        Parse.beginNode ⟨anchors, nodes, .flowSequence o items outer⟩ (.flowItem o items :: outer)
          token := by
      obtain ⟨lexeme, mark⟩ := token
      cases lexeme <;> first | rfl | exact htoken.elim
    exact htake.trans (beginNode_eq htoken)

/-! ## Collections -/

variable {anchors : List Anchor} {nodes : Nodes} {state : State} {mark : Mark} {text : Text}

theorem exists_token {lexeme : Lexeme} {rest : List Lexeme}
    (h : tokens.map Token.lexeme = lexeme :: rest) :
    ∃ mark others, tokens = ⟨lexeme, mark⟩ :: others ∧ others.map Token.lexeme = rest := by
  obtain ⟨⟨_, mark⟩, others, rfl, rfl, hothers⟩ := List.map_eq_cons_iff.mp h
  exact ⟨mark, others, rfl, hothers⟩

theorem exists_single {lexeme : Lexeme} (h : tokens.map Token.lexeme = [lexeme]) :
    ∃ mark, tokens = [⟨lexeme, mark⟩] := by
  obtain ⟨mark, others, rfl, hothers⟩ := exists_token h
  obtain rfl := List.map_eq_nil_iff.mp hothers
  exact ⟨mark, rfl⟩

theorem steps_scalar (hstate : Awaits state outer) :
    Steps ⟨anchors, nodes, state⟩ [⟨.scalar false text, mark⟩]
      ⟨anchors, nodes, give (.scalar mark false text) outer⟩ := by
  have hbegins : BeginsTree (.scalar false text) := trivial
  exact steps_single (step_of_awaits hstate hbegins)

theorem steps_openSequence (anchors : List Anchor) (nodes : Nodes) (mark : Mark)
    (hstate : Awaits state outer) (hdepth : depth outer < depthLimit) :
    Steps ⟨anchors, nodes, state⟩ [⟨.flowSequenceStart, mark⟩]
      ⟨anchors, nodes, .flowSequence ⟨mark, none⟩ [] outer⟩ := by
  have hbegins : BeginsTree .flowSequenceStart := trivial
  refine steps_single ((step_of_awaits hstate hbegins).trans ?_)
  exact if_pos hdepth

theorem steps_openMapping (anchors : List Anchor) (nodes : Nodes) (mark : Mark)
    (hstate : Awaits state outer) (hdepth : depth outer < depthLimit) :
    Steps ⟨anchors, nodes, state⟩ [⟨.flowMappingStart, mark⟩]
      ⟨anchors, nodes, .flowMapping ⟨mark, none⟩ [] outer⟩ := by
  have hbegins : BeginsTree .flowMappingStart := trivial
  refine steps_single ((step_of_awaits hstate hbegins).trans ?_)
  exact if_pos hdepth

theorem steps_key {o : Opening} {entries : List (Node × Node)} {name : Text}
    (h : tokens.map Token.lexeme = [.key, .scalar false name, .value]) :
    ∃ mark, Steps ⟨anchors, nodes, .flowMapping o entries outer⟩ tokens
      ⟨anchors, nodes, .node (.flowValue o entries (.scalar mark false name) :: outer)⟩ := by
  obtain ⟨keyMark, _, rfl, hnamed⟩ := exists_token h
  obtain ⟨mark, _, rfl, hcolon⟩ := exists_token hnamed
  obtain ⟨valueMark, rfl⟩ := exists_single hcolon
  have hkey : Steps ⟨anchors, nodes, .flowMapping o entries outer⟩ [⟨.key, keyMark⟩]
      ⟨anchors, nodes, .node (.flowKey o entries :: outer)⟩ := steps_single rfl
  have hname : Steps ⟨anchors, nodes, .node (.flowKey o entries :: outer)⟩
      [⟨.scalar false name, mark⟩]
      ⟨anchors, nodes, .afterFlowKey o entries (.scalar mark false name) outer⟩ :=
    steps_scalar (.node _)
  have hvalue : Steps ⟨anchors, nodes, .afterFlowKey o entries (.scalar mark false name) outer⟩
      [⟨.value, valueMark⟩]
      ⟨anchors, nodes, .node (.flowValue o entries (.scalar mark false name) :: outer)⟩ :=
    steps_single rfl
  exact ⟨mark, (hkey.append hname).append hvalue⟩

theorem steps_closeSequence (mark closeMark : Mark) (n : Node) (more : List Node) :
    Steps ⟨anchors, nodes, .afterFlowItem ⟨mark, none⟩ (more.reverse ++ [n]) outer⟩
      [⟨.flowSequenceEnd, closeMark⟩] ⟨anchors, nodes, give (.seq mark (n :: more)) outer⟩ := by
  have hitems : (more.reverse ++ [n]).reverse = n :: more := by simp
  rw [← hitems]
  exact steps_single rfl

theorem steps_closeMapping (mark closeMark : Mark) (entry : Node × Node)
    (more : List (Node × Node)) :
    Steps ⟨anchors, nodes, .afterFlowEntry ⟨mark, none⟩ (more.reverse ++ [entry]) outer⟩
      [⟨.flowMappingEnd, closeMark⟩] ⟨anchors, nodes, give (.map mark (entry :: more)) outer⟩ := by
  have hentries : (more.reverse ++ [entry]).reverse = entry :: more := by simp
  rw [← hentries]
  exact steps_single rfl

theorem depth_flowItem (o : Opening) (items : List Node) (outer : List Frame) :
    depth (.flowItem o items :: outer) = depth outer + 1 := Nat.add_comm _ _

theorem depth_flowValue (o : Opening) (entries : List (Node × Node)) (key : Node)
    (outer : List Frame) : depth (.flowValue o entries key :: outer) = depth outer + 1 :=
  Nat.add_comm _ _

mutual

/-- The tokens of a tree give a node that spells it. -/
theorem steps_lexemes : ∀ (t : Tree) {state : State} {outer : List Frame} {tokens : List Token},
    Awaits state outer → depth outer + t.height ≤ depthLimit →
      tokens.map Token.lexeme = lexemes t →
      ∃ n, Steps ⟨anchors, nodes, state⟩ tokens ⟨anchors, nodes, give n outer⟩ ∧ Spells t n
  | .leaf value, state, outer, tokens, hstate, _, h => by
    obtain ⟨mark, rfl⟩ := exists_single h
    exact ⟨_, steps_scalar hstate, mark, rfl⟩
  | .seq [], state, outer, tokens, hstate, hdepth, h => by
    obtain ⟨mark, others, rfl, hothers⟩ := exists_token h
    obtain ⟨closeMark, rfl⟩ := exists_single hothers
    have hopen : depth outer < depthLimit := hdepth
    have hclose : Steps ⟨anchors, nodes, .flowSequence ⟨mark, none⟩ [] outer⟩
        [⟨.flowSequenceEnd, closeMark⟩] ⟨anchors, nodes, give (.seq mark []) outer⟩ :=
      steps_single rfl
    exact ⟨_, (steps_openSequence anchors nodes mark hstate hopen).append hclose, mark, [], rfl, rfl⟩
  | .seq (t :: rest), state, outer, tokens, hstate, hdepth, h => by
    simp only [Tree.height, Tree.heightOfItems] at hdepth
    rw [lexemes] at h
    obtain ⟨_, closing, rfl, hfront, hclosing⟩ := List.map_eq_append_iff.mp h
    obtain ⟨_, others, rfl, hopened, hothers⟩ := List.map_eq_append_iff.mp hfront
    obtain ⟨opening, first, rfl, hopening, hfirst⟩ := List.map_eq_append_iff.mp hopened
    obtain ⟨mark, rfl⟩ := exists_single hopening
    obtain ⟨closeMark, rfl⟩ := exists_single hclosing
    have hopen := steps_openSequence anchors nodes mark hstate (by omega)
    have hinner : depth (.flowItem ⟨mark, none⟩ [] :: outer) + t.height ≤ depthLimit := by
      rw [depth_flowItem]
      omega
    obtain ⟨n, hn, hspells⟩ := steps_lexemes t (.item ⟨mark, none⟩ [] outer) hinner hfirst
    obtain ⟨more, hmore, hspellsMore⟩ :=
      steps_itemLexemes rest ⟨mark, none⟩ [n] outer (by omega) hothers
    have hall := ((hopen.append hn).append hmore).append (steps_closeSequence mark closeMark n more)
    exact ⟨_, hall, mark, n :: more, rfl, n, more, rfl, hspells, hspellsMore⟩
  | .keyed [], state, outer, tokens, hstate, hdepth, h => by
    obtain ⟨mark, others, rfl, hothers⟩ := exists_token h
    obtain ⟨closeMark, rfl⟩ := exists_single hothers
    have hopen : depth outer < depthLimit := hdepth
    have hclose : Steps ⟨anchors, nodes, .flowMapping ⟨mark, none⟩ [] outer⟩
        [⟨.flowMappingEnd, closeMark⟩] ⟨anchors, nodes, give (.map mark []) outer⟩ :=
      steps_single rfl
    exact ⟨_, (steps_openMapping anchors nodes mark hstate hopen).append hclose, mark, [], rfl, rfl⟩
  | .keyed ((name, t) :: rest), state, outer, tokens, hstate, hdepth, h => by
    simp only [Tree.height, Tree.heightOfFields] at hdepth
    rw [lexemes] at h
    obtain ⟨_, closing, rfl, hfront, hclosing⟩ := List.map_eq_append_iff.mp h
    obtain ⟨_, others, rfl, hopened, hothers⟩ := List.map_eq_append_iff.mp hfront
    obtain ⟨_, first, rfl, hnamed, hfirst⟩ := List.map_eq_append_iff.mp hopened
    obtain ⟨opening, label, rfl, hopening, hlabel⟩ := List.map_eq_append_iff.mp hnamed
    obtain ⟨mark, rfl⟩ := exists_single hopening
    obtain ⟨closeMark, rfl⟩ := exists_single hclosing
    have hopen := steps_openMapping anchors nodes mark hstate (by omega)
    obtain ⟨keyMark, hkey⟩ := steps_key (o := ⟨mark, none⟩) hlabel
    have hinner : depth (.flowValue ⟨mark, none⟩ [] (.scalar keyMark false name) :: outer) +
        t.height ≤ depthLimit := by
      rw [depth_flowValue]
      omega
    obtain ⟨n, hn, hspells⟩ := steps_lexemes t (.node _) hinner hfirst
    obtain ⟨more, hmore, hspellsMore⟩ := steps_fieldLexemes rest ⟨mark, none⟩
      [(.scalar keyMark false name, n)] outer (by omega) hothers
    have hall := (((hopen.append hkey).append hn).append hmore).append
      (steps_closeMapping mark closeMark _ more)
    exact ⟨_, hall, mark, _, rfl, keyMark, n, more, rfl, hspells, hspellsMore⟩

theorem steps_itemLexemes : ∀ (rest : List Tree) (o : Opening) (items : List Node)
    (outer : List Frame) {tokens : List Token},
    depth outer + 1 + Tree.heightOfItems rest ≤ depthLimit →
      tokens.map Token.lexeme = itemLexemes rest →
      ∃ more, Steps ⟨anchors, nodes, .afterFlowItem o items outer⟩ tokens
          ⟨anchors, nodes, .afterFlowItem o (more.reverse ++ items) outer⟩ ∧
        SpellsItems rest more
  | [], o, items, outer, tokens, _, h => by
    obtain rfl := List.map_eq_nil_iff.mp h
    exact ⟨[], rfl, rfl⟩
  | t :: rest, o, items, outer, tokens, hdepth, h => by
    simp only [Tree.heightOfItems] at hdepth
    rw [itemLexemes] at h
    obtain ⟨_, others, rfl, hfront, hothers⟩ := List.map_eq_append_iff.mp h
    obtain ⟨comma, first, rfl, hcomma, hfirst⟩ := List.map_eq_append_iff.mp hfront
    obtain ⟨mark, rfl⟩ := exists_single hcomma
    have hnext : Steps ⟨anchors, nodes, .afterFlowItem o items outer⟩ [⟨.flowEntry, mark⟩]
        ⟨anchors, nodes, .flowSequence o items outer⟩ := steps_single rfl
    have hinner : depth (.flowItem o items :: outer) + t.height ≤ depthLimit := by
      rw [depth_flowItem]
      omega
    obtain ⟨n, hn, hspells⟩ := steps_lexemes t (.item o items outer) hinner hfirst
    obtain ⟨more, hmore, hspellsMore⟩ :=
      steps_itemLexemes rest o (n :: items) outer (by omega) hothers
    have hitems : (n :: more).reverse ++ items = more.reverse ++ n :: items := by simp
    rw [← hitems] at hmore
    exact ⟨n :: more, (hnext.append hn).append hmore, n, more, rfl, hspells, hspellsMore⟩

theorem steps_fieldLexemes : ∀ (rest : List (Text × Tree)) (o : Opening)
    (entries : List (Node × Node)) (outer : List Frame) {tokens : List Token},
    depth outer + 1 + Tree.heightOfFields rest ≤ depthLimit →
      tokens.map Token.lexeme = fieldLexemes rest →
      ∃ more, Steps ⟨anchors, nodes, .afterFlowEntry o entries outer⟩ tokens
          ⟨anchors, nodes, .afterFlowEntry o (more.reverse ++ entries) outer⟩ ∧
        SpellsFields rest more
  | [], o, entries, outer, tokens, _, h => by
    obtain rfl := List.map_eq_nil_iff.mp h
    exact ⟨[], rfl, rfl⟩
  | (name, t) :: rest, o, entries, outer, tokens, hdepth, h => by
    simp only [Tree.heightOfFields] at hdepth
    rw [fieldLexemes] at h
    obtain ⟨_, others, rfl, hfront, hothers⟩ := List.map_eq_append_iff.mp h
    obtain ⟨_, first, rfl, hnamed, hfirst⟩ := List.map_eq_append_iff.mp hfront
    obtain ⟨comma, label, rfl, hcomma, hlabel⟩ := List.map_eq_append_iff.mp hnamed
    obtain ⟨mark, rfl⟩ := exists_single hcomma
    have hnext : Steps ⟨anchors, nodes, .afterFlowEntry o entries outer⟩ [⟨.flowEntry, mark⟩]
        ⟨anchors, nodes, .flowMapping o entries outer⟩ := steps_single rfl
    obtain ⟨keyMark, hkey⟩ := steps_key hlabel
    have hinner : depth (.flowValue o entries (.scalar keyMark false name) :: outer) + t.height ≤
        depthLimit := by
      rw [depth_flowValue]
      omega
    obtain ⟨n, hn, hspells⟩ := steps_lexemes t (.node _) hinner hfirst
    obtain ⟨more, hmore, hspellsMore⟩ := steps_fieldLexemes rest o
      ((.scalar keyMark false name, n) :: entries) outer (by omega) hothers
    have hentries : ((.scalar keyMark false name, n) :: more).reverse ++ entries =
        more.reverse ++ (.scalar keyMark false name, n) :: entries := by simp
    rw [← hentries] at hmore
    exact ⟨_ :: more, ((hnext.append hkey).append hn).append hmore, keyMark, n, more, rfl, hspells,
      hspellsMore⟩

end

end Parse

end Yaml

end FluentFixtures
