import FluentFixtures.Json.Reader
import FluentFixtures.Proofs.Json.Numeral
import FluentFixtures.Proofs.Json.Parts
import FluentFixtures.Proofs.Json.Repeated

/-!
# Reading what the grammar derives

The reader gets over every text of a phrase to the state after it, from any state
that takes a value and with anything after it that continues no numeral:
`Derives.reached`. So every document of the grammar is read as the tree that it
denotes: `read_of_derives`.
-/

namespace FluentFixtures.Json

open Fields (gathered gathered_concat gathered_singleton)

/-! ## Runs of the reader -/

section Steps

variable {document t : Text} {state : State} {offset : Nat} {c : CodePoint}

theorem run_space (hc : isSpace c = true) :
    State.run document state offset (c :: t) = State.run document state (offset + 1) t := by
  conv_lhs => rw [State.run]
  exact if_pos hc

theorem run_token {state' : State} {t' : Text} {token : Token} {size : Nat}
    (hc : isSpace c = false) (hnext : Token.next c t = .ok (token, size, t'))
    (hstep : state.step token = some state') : State.run document state offset (c :: t) =
      State.run document state' (offset + size) t' := by
  conv_lhs => rw [State.run]
  simp only [hc, Bool.false_eq_true, if_false]
  split
  · next h => cases hnext.symm.trans h
  · next h =>
    cases hnext.symm.trans h
    simp only [hstep]

theorem run_tokenFault {fault : TokenFault} (hc : isSpace c = false)
    (hnext : Token.next c t = .error fault) : State.run document state offset (c :: t) =
      .error (state.tokenError document offset fault) := by
  rw [State.run, hc, hnext]
  rfl

end Steps

/-- Whether reading gets from a state at one text to another state at the rest of it, wherever in
the document that is. -/
def Reaches (document : Text) (state : State) (t : Text) (state' : State) (t' : Text) : Prop :=
  ∀ offset, ∃ offset', State.run document state offset t = State.run document state' offset' t'

namespace Reaches

variable {document : Text} {state state' state'' : State} {t t' t'' : Text}

theorem refl : Reaches document state t state t := fun offset => ⟨offset, rfl⟩

theorem trans (h : Reaches document state t state' t')
    (h' : Reaches document state' t' state'' t'') : Reaches document state t state'' t'' := by
  intro offset
  obtain ⟨offset', hrun⟩ := h offset
  obtain ⟨offset'', hrun'⟩ := h' offset'
  exact ⟨offset'', hrun.trans hrun'⟩

theorem space {c : CodePoint} (hc : isSpace c = true) :
    Reaches document state (c :: t) state t := fun offset => ⟨offset + 1, run_space hc⟩

theorem spaces {s : Text} (hs : ∀ c ∈ s, isSpace c = true) :
    Reaches document state (s ++ t) state t := by
  induction s with
  | nil => exact refl
  | cons c s ih =>
    obtain ⟨hc, hs⟩ := List.forall_mem_cons.mp hs
    exact (space hc).trans (ih hs)

theorem token {c : CodePoint} {token : Token} {size : Nat} (hc : isSpace c = false)
    (hnext : Token.next c t = .ok (token, size, t')) (hstep : state.step token = some state') :
    Reaches document state (c :: t) state' t' :=
  fun offset => ⟨offset + size, run_token hc hnext hstep⟩

theorem mark {c : CodePoint} {token : Token} (hc : isSpace c = false)
    (hnext : Token.next c t = .ok (token, 1, t)) (hstep : state.step token = some state') :
    Reaches document state (c :: t) state' t :=
  Reaches.token hc hnext hstep

theorem string {u s : Text} (h : IsString u s) (hstep : state.step (.str u) = some state') :
    Reaches document state (s ++ t) state' t := by
  obtain ⟨rest, size, htext, hnext⟩ := Token.next_string h t
  rw [htext]
  exact Reaches.token rfl hnext hstep

theorem word {value : Scalar} {s : Text} (h : Word value s)
    (hstep : state.step (.scalar value) = some state') :
    Reaches document state (s ++ t) state' t := by
  obtain ⟨c, rest, htext, hspace, hnext⟩ := Token.next_word h t
  rw [htext]
  exact Reaches.token hspace hnext hstep

theorem numeral {n : Numeral} {s : Text} (h : n.Spelled s) {value : Scalar}
    (hvalue : n.value = .ok value) (ht : EndsNumeral t)
    (hstep : state.step (.scalar value) = some state') :
    Reaches document state (s ++ t) state' t := by
  obtain ⟨c, rest, htext, hspace, hnext⟩ := Token.next_spelled h hvalue ht
  rw [htext]
  exact Reaches.token hspace hnext hstep

end Reaches

/-- Whether a state takes the first token of a value and what the value is given to; a state before
the first item takes no end of a value. -/
def Takes (state : State) (outer : List Frame) : Prop :=
  ∀ token, token ≠ .endArray → state.step token = State.beginValue outer token

theorem takes_beforeValue (outer : List Frame) : Takes (.beforeValue outer) outer := fun _ _ => rfl

theorem takes_beforeFirstItem (outer : List Frame) :
    Takes (.beforeFirstItem outer) (.array [] :: outer) := by
  intro token htoken
  cases token with
  | endArray => exact absurd rfl htoken
  | _ => rfl

theorem Takes.scalar {state : State} {outer : List Frame} (h : Takes state outer) (value : Scalar) :
    state.step (.scalar value) = some (.give (.leaf value) outer) := h _ nofun

variable {document s t b : Text} {c : CodePoint} {tree : Tree} {outer : List Frame}

/-! ## Blanks -/

theorem isSpace_iff : isSpace c = true ↔ c = 0x20 ∨ c = 0x09 ∨ c = 0x0A ∨ c = 0x0D := by
  simp only [isSpace, Bool.or_eq_true, decide_eq_true_eq, or_assoc]
  rfl

theorem Blank.spaces (hb : Blank b) : ∀ c ∈ b, isSpace c = true := fun c hc =>
  isSpace_iff.mpr (hb c hc)

theorem blank_nil : Blank [] := nofun

theorem Blank.endsNumeral (hb : Blank b) (ht : EndsNumeral t) : EndsNumeral (b ++ t) := by
  cases b with
  | nil => exact ht
  | cons c rest =>
    rintro d ⟨rfl⟩
    rcases hb c List.mem_cons_self with rfl | rfl | rfl | rfl <;> decide

/-! ## What is derived is read -/

theorem reaches_isName {state state' : State} {name : Text} (h : IsName name s)
    (hstep : state.step (.str name) = some state') : Reaches document state (s ++ t) state' t := by
  obtain ⟨hb, hname, hb'⟩ := h
  rw [List.append_assoc, List.append_assoc]
  exact (Reaches.spaces hb.spaces).trans
    ((Reaches.string hname hstep).trans (Reaches.spaces hb'.spaces))

/-- What the reader does with a text of a phrase, with any text after it that continues no
numeral. -/
def Phrase.Reached (document s : Text) : Phrase → Prop
  | .value tree | .element tree => ∀ {state : State} {outer : List Frame} {rest : Text},
      Takes state outer → EndsNumeral rest →
        Reaches document state (s ++ rest) (.give tree outer) rest
  | .items trees => ∀ {outer : List Frame} {rest : Text}, EndsNumeral rest →
      Reaches document (.beforeFirstItem outer) (s ++ rest) (.afterItem trees.reverse outer) rest
  | .fields named => ∀ {outer : List Frame} {rest : Text}, EndsNumeral rest →
      Reaches document (.beforeFirstName outer) (s ++ rest)
        (.afterField (gathered named) outer) rest

theorem endsNumeral_cons (hc : c = 0x2C ∨ c = 0x3A ∨ c = 0x5D ∨ c = 0x7D) (t : Text) :
    EndsNumeral (c :: t) := by
  rintro d ⟨rfl⟩
  rcases hc with rfl | rfl | rfl | rfl <;> decide

theorem Derives.reached {phrase : Phrase} (h : Derives phrase s) : phrase.Reached document s := by
  induction h with
  | word hword =>
    intro state outer rest htakes _
    exact Reaches.word hword (htakes.scalar _)
  | number hn hv =>
    intro state outer rest htakes hrest
    exact Reaches.numeral hn (Numeral.value_eq_ok_iff.mpr hv) hrest (htakes.scalar _)
  | string hstring =>
    intro state outer rest htakes _
    exact Reaches.string hstring (htakes _ nofun)
  | @emptyArray b hb =>
    intro state outer rest htakes _
    have hopen : Reaches document state (0x5B :: (b ++ 0x5D :: rest)) (.beforeFirstItem outer)
        (b ++ 0x5D :: rest) := Reaches.mark rfl rfl (htakes .beginArray nofun)
    rw [List.cons_append, List.append_assoc]
    exact hopen.trans ((Reaches.spaces hb.spaces).trans (Reaches.mark rfl rfl rfl))
  | @array items s _ ih =>
    intro state outer rest htakes _
    have hopen : Reaches document state (0x5B :: (s ++ 0x5D :: rest)) (.beforeFirstItem outer)
        (s ++ 0x5D :: rest) := Reaches.mark rfl rfl (htakes .beginArray nofun)
    have hclose : Reaches document (.afterItem items.reverse outer) (0x5D :: rest)
        (.give (.seq items) outer) rest := by
      refine Reaches.mark rfl rfl ?_
      rw [State.step, List.reverse_reverse]
    rw [List.cons_append, List.append_assoc]
    exact hopen.trans ((ih (endsNumeral_cons (by decide) rest)).trans hclose)
  | @emptyObject b hb =>
    intro state outer rest htakes _
    have hopen : Reaches document state (0x7B :: (b ++ 0x7D :: rest)) (.beforeFirstName outer)
        (b ++ 0x7D :: rest) := Reaches.mark rfl rfl (htakes .beginObject nofun)
    rw [List.cons_append, List.append_assoc]
    exact hopen.trans ((Reaches.spaces hb.spaces).trans (Reaches.mark rfl rfl rfl))
  | @object named s _ ih =>
    intro state outer rest htakes _
    have hopen : Reaches document state (0x7B :: (s ++ 0x7D :: rest)) (.beforeFirstName outer)
        (s ++ 0x7D :: rest) := Reaches.mark rfl rfl (htakes .beginObject nofun)
    have hclose : Reaches document (.afterField (gathered named) outer) (0x7D :: rest)
        (.give (.keyed (gathered named)) outer) rest := Reaches.mark rfl rfl rfl
    rw [List.cons_append, List.append_assoc]
    exact hopen.trans ((ih (endsNumeral_cons (by decide) rest)).trans hclose)
  | element hb _ hb' ih =>
    -- A numeral ends at the blanks after it or at what comes after them.
    intro state outer rest htakes hrest
    rw [List.append_assoc, List.append_assoc]
    exact (Reaches.spaces hb.spaces).trans
      ((ih htakes (hb'.endsNumeral hrest)).trans (Reaches.spaces hb'.spaces))
  | item _ ih =>
    intro outer rest hrest
    exact ih (takes_beforeFirstItem outer) hrest
  | @nextItem items tree s s' _ _ ih iht =>
    intro outer rest hrest
    have hcomma : Reaches document (.afterItem items.reverse outer) (0x2C :: (s' ++ rest))
        (.beforeValue (.array items.reverse :: outer)) (s' ++ rest) := Reaches.mark rfl rfl rfl
    have hnext := iht (takes_beforeValue (.array items.reverse :: outer)) hrest
    rw [List.append_assoc, List.cons_append, List.reverse_append]
    exact (ih (endsNumeral_cons (by decide) _)).trans (hcomma.trans hnext)
  | @field name tree s s' hname _ ih =>
    intro outer rest hrest
    have hcolon : Reaches document (.beforeColon [] name outer) (0x3A :: (s' ++ rest))
        (.beforeValue (.object [] name :: outer)) (s' ++ rest) := Reaches.mark rfl rfl rfl
    have hvalue := ih (takes_beforeValue (.object [] name :: outer)) hrest
    rw [List.append_assoc, List.cons_append, gathered_singleton]
    exact (reaches_isName hname rfl).trans (hcolon.trans hvalue)
  | @nextField named name tree s s' s'' _ hname _ ih iht =>
    intro outer rest hrest
    have hcomma : Reaches document (.afterField (gathered named) outer)
        (0x2C :: (s' ++ 0x3A :: (s'' ++ rest))) (.beforeName (gathered named) outer)
        (s' ++ 0x3A :: (s'' ++ rest)) := Reaches.mark rfl rfl rfl
    have hcolon : Reaches document (.beforeColon (gathered named) name outer)
        (0x3A :: (s'' ++ rest)) (.beforeValue (.object (gathered named) name :: outer))
        (s'' ++ rest) := Reaches.mark rfl rfl rfl
    have hvalue := iht (takes_beforeValue (.object (gathered named) name :: outer)) hrest
    rw [List.append_assoc, List.cons_append, List.append_assoc, List.cons_append, gathered_concat]
    exact (ih (endsNumeral_cons (by decide) _)).trans
      (hcomma.trans ((reaches_isName hname rfl).trans (hcolon.trans hvalue)))

/-! ## Documents -/

theorem run_byteOrderMark (outer : List Frame) (offset : Nat) (t : Text) :
    State.run document (.beforeValue outer) offset (byteOrderMark :: t) =
      .error (.malformed .expectingValue (.of document offset)) := by
  have hnext : Token.next byteOrderMark t = .error .none := rfl
  rw [run_tokenFault rfl hnext]
  rfl

theorem read_eq_run_iff : read document = .ok tree ↔
    State.run document (.beforeValue []) 0 document = .ok tree := by
  rw [read]
  split
  · next hmark =>
    obtain ⟨t, rfl⟩ := List.head?_eq_some_iff.mp hmark
    rw [run_byteOrderMark]
    exact iff_of_false nofun nofun
  · rfl

theorem read_of_derives (h : Derives (.element tree) document) : read document = .ok tree := by
  have hends : EndsNumeral [] := nofun
  have hreaches : Reaches document (.beforeValue []) (document ++ []) (.give tree []) [] :=
    h.reached (takes_beforeValue []) hends
  obtain ⟨offset, hrun⟩ := hreaches 0
  rw [List.append_nil] at hrun
  rw [read_eq_run_iff, hrun, State.give, State.run]

end FluentFixtures.Json
