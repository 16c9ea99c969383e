import FluentFixtures.Proofs.Json.Documents

/-!
# Beginnings of documents

What the reader has taken at a state can be completed to a document: every state
has a text that brings what is open to an end, `completes_completion`. So what
leads to a state begins a document, `Leads.viable`, and so does what leads to a
string and the parts of it up to where it breaks off, `Leads.viable_string`.
-/

namespace FluentFixtures.Json

variable {s t l : Text} {c : CodePoint} {tree : Tree} {state state' : State} {token : Token}

/-! ## Completions -/

/-- The brackets that end open containers. -/
def closings (outer : List Frame) : Text :=
  outer.map fun
    | .array _ => 0x5D
    | .object _ _ => 0x7D

/-- A text that ends a document at a state. A value that is missing is an empty array, and a name
that is missing is empty. -/
def State.completion : State → Text
  | .beforeValue outer => [0x5B, 0x5D] ++ closings outer
  | .beforeFirstItem outer => [0x5D] ++ closings outer
  | .afterItem _ outer => [0x5D] ++ closings outer
  | .beforeFirstName outer => [0x7D] ++ closings outer
  | .beforeName _ outer => [0x22, 0x22, 0x3A, 0x5B, 0x5D, 0x7D] ++ closings outer
  | .beforeColon _ _ outer => [0x3A, 0x5B, 0x5D, 0x7D] ++ closings outer
  | .afterField _ outer => [0x7D] ++ closings outer
  | .finished _ => []

/-- Whether a text makes a document of all that leads to a state. -/
def Completes (state : State) (rest : Text) : Prop :=
  ∀ s, Leads state s → ∃ tree, Derives (.element tree) (s ++ rest)

theorem Completes.step {rest : Text} (htoken : token.Spelled l)
    (hstep : state.step token = some state') (h : Completes state' rest) :
    Completes state (l ++ rest) := by
  intro s hs
  have hcompleted := h (s ++ l) (hs.step htoken hstep)
  rwa [List.append_assoc] at hcompleted

theorem completes_finished : Completes (.finished tree) [] := by
  intro s hs
  cases hs with
  | finished h => exact ⟨tree, (List.append_nil s).symm ▸ h⟩

/-- After a value the open containers are closed, the innermost first. -/
theorem completes_give (tree : Tree) (outer : List Frame) :
    Completes (.give tree outer) (closings outer) := by
  induction outer generalizing tree with
  | nil => exact completes_finished
  | cons frame outer ih =>
    cases frame with
    | array items => exact .step .endArray rfl (ih _)
    | object fields name => exact .step .endObject rfl (ih _)

theorem completes_beforeValue (outer : List Frame) :
    Completes (.beforeValue outer) ([0x5B, 0x5D] ++ closings outer) :=
  .step (l := [0x5B]) .beginArray rfl (.step .endArray rfl (completes_give _ outer))

theorem completes_beforeColon (fields : Fields) (name : Text) (outer : List Frame) :
    Completes (.beforeColon fields name outer) ([0x3A, 0x5B, 0x5D, 0x7D] ++ closings outer) :=
  .step (l := [0x3A]) .colon rfl (completes_beforeValue (.object fields name :: outer))

/-- At every state there is a way to the end of a document. -/
theorem completes_completion (state : State) : Completes state state.completion := by
  cases state with
  | beforeValue outer => exact completes_beforeValue outer
  | beforeFirstItem outer => exact .step .endArray rfl (completes_give _ outer)
  | afterItem items outer => exact .step .endArray rfl (completes_give _ outer)
  | beforeFirstName outer => exact .step .endObject rfl (completes_give _ outer)
  | beforeName fields outer =>
    exact .step (l := [0x22, 0x22]) (.str (.quoted .nil)) rfl
      (completes_beforeColon fields [] outer)
  | beforeColon fields name outer => exact completes_beforeColon fields name outer
  | afterField fields outer => exact .step .endObject rfl (completes_give _ outer)
  | finished tree => exact completes_finished

example : (State.beforeColon [] "a" [.array []]).completion = (":[]\x7d]" : Text) := by decide

/-- Looks at the text only, not at all code points. -/
theorem isSurrogate_of_all {marks : Text} (h : marks.all (fun c => !c.isSurrogate) = true) :
    ∀ c ∈ marks, c.isSurrogate = false := fun c hc => by simpa using List.all_eq_true.mp h c hc

theorem isSurrogate_completion (state : State) :
    ∀ c ∈ state.completion, c.isSurrogate = false := by
  have hclosings (outer : List Frame) : ∀ c ∈ closings outer, c.isSurrogate = false := by
    intro c hc
    obtain ⟨frame, -, rfl⟩ := List.mem_map.mp hc
    cases frame <;> rfl
  cases state with
  | finished tree => exact List.forall_mem_nil _
  | _ => exact List.forall_mem_append.mpr ⟨isSurrogate_of_all rfl, hclosings _⟩

/-! ## Texts that can go on -/

/-- Whether a text is the beginning of a document. What the document has after it is without
surrogates, so a text without surrogates is the beginning of a document without them. -/
def Viable (s : Text) : Prop :=
  ∃ rest tree, (∀ c ∈ rest, c.isSurrogate = false) ∧ read (s ++ rest) = .ok tree

theorem Viable.of_append (ht : ∀ c ∈ t, c.isSurrogate = false) (h : Viable (s ++ t)) :
    Viable s := by
  obtain ⟨rest, tree, hrest, hread⟩ := h
  rw [List.append_assoc] at hread
  exact ⟨t ++ rest, tree, List.forall_mem_append.mpr ⟨ht, hrest⟩, hread⟩

theorem Leads.viable (h : Leads state s) : Viable s := by
  obtain ⟨tree, hderives⟩ := completes_completion state s h
  exact ⟨state.completion, tree, isSurrogate_completion state, read_of_derives hderives⟩

/-! ## Strings that break off -/

/-- Whether parts of a string, or parts and a backslash that another one makes a part, are the first
`n` code points of a text. -/
structure BeginsParts (t : Text) (n : Nat) : Prop where
  le_length : n ≤ t.length
  spells : ∃ more ∈ [[], [0x5C]], ∃ parts, SpellsParts parts (t.take n ++ more)

theorem beginsParts_zero (t : Text) : BeginsParts t 0 :=
  ⟨Nat.zero_le _, [], List.mem_cons_self, [], .nil⟩

theorem beginsParts_backslash (t : Text) : BeginsParts (0x5C :: t) 1 := by
  have hpart : (StringPart.char 0x5C).Spelled [0x5C, 0x5C] := .short (by decide)
  have hparts : SpellsParts [.char 0x5C] ([0x5C, 0x5C] ++ []) := .cons hpart .nil
  exact ⟨Nat.le_add_left 1 _, [0x5C], List.mem_cons_of_mem _ List.mem_cons_self, _, hparts⟩

theorem BeginsParts.cons {part : StringPart} {n : Nat} (hpart : part.Spelled l)
    (h : BeginsParts t n) : BeginsParts (l ++ t) (l.length + n) := by
  obtain ⟨hle, more, hmore, parts, hparts⟩ := h
  refine ⟨?_, more, hmore, part :: parts, ?_⟩
  · rw [List.length_append]
    exact Nat.add_le_add_left hle _
  · rw [List.take_length_add_append, List.append_assoc]
    exact .cons hpart hparts

/-- A string is at fault at its quote, or where parts of it end. -/
theorem beginsParts_of_stringRest {offset within : Nat} {afterHigh : Bool} {done : Text}
    {fault : StringFault} (h : stringRest offset afterHigh done t = .error (.string fault within)) :
    within = 0 ∨ ∃ n, within = offset + n ∧ BeginsParts t n := by
  -- The part that the reader takes first comes in front of those that it takes after it.
  have hmore {l rest : Text} {part : StringPart} {offset : Nat} (hpart : part.Spelled l)
      (hrest : within = 0 ∨ ∃ n, within = offset + l.length + n ∧ BeginsParts rest n) :
      within = 0 ∨ ∃ n, within = offset + n ∧ BeginsParts (l ++ rest) n := by
    rcases hrest with hzero | ⟨n, hwithin, hbegins⟩
    · exact .inl hzero
    · exact .inr ⟨l.length + n, by omega, hbegins.cons hpart⟩
  fun_induction stringRest offset afterHigh done t with
  | case1 | case3 =>
    cases h
    exact .inl rfl
  | case2 => cases h
  | case4 offset afterHigh done d₁ d₂ d₃ d₄ next more c hnumber hquote ih =>
    obtain ⟨n₁, n₂, n₃, n₄, h₁, h₂, h₃, h₄, hc⟩ := fourHex?_eq_some_iff.mp hnumber
    exact hmore (.number h₁ h₂ h₃ h₄ hc) (ih h)
  | case5 | case6 =>
    -- The fault of a number is told at its letter, behind the backslash.
    cases h
    exact .inr ⟨1, rfl, beginsParts_backslash _⟩
  | case7 offset afterHigh done e more hu c he hquote ih =>
    exact hmore (.short (shortEscape?_eq_some_iff.mp he)) (ih h)
  | case8 | case9 =>
    cases h
    exact .inr ⟨0, rfl, beginsParts_zero _⟩
  | case10 offset afterHigh done c more hquote hbackslash hcontrol ih =>
    exact hmore (.plain (not_lt.mp hcontrol) hquote hbackslash) (ih h)

theorem exists_step_of_takesString (h : state.takesString = true) (content : Text) :
    ∃ state', state.step (.str content) = some state' := by
  cases state with
  | beforeValue | beforeFirstItem | beforeFirstName | beforeName => exact ⟨_, rfl⟩
  | afterItem | beforeColon | afterField | finished => cases h

/-- Where a string is taken, its quote and the beginning of its parts can be completed: the parts by
a quote, and then the document. -/
theorem Leads.viable_string {n : Nat} (h : Leads state s) (hstring : state.takesString = true)
    (hparts : BeginsParts t n) : Viable (s ++ 0x22 :: t.take n) := by
  obtain ⟨more, hmore, parts, hspells⟩ := hparts.spells
  obtain ⟨state', hstep⟩ := exists_step_of_takesString hstring (content parts)
  have hviable := (h.step (.str (.quoted hspells)) hstep).viable
  have hends : ∀ c ∈ more ++ [0x22], c.isSurrogate = false := by
    rcases List.mem_pair.mp hmore with rfl | rfl <;> exact isSurrogate_of_all rfl
  refine Viable.of_append hends ?_
  simpa using hviable

end FluentFixtures.Json
