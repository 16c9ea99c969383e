import FluentFixtures.Proofs.Json.Complete

/-!
# The documents that are read

What the reader has taken at a state is told by the grammar, `Leads`: every token
keeps that so, `Leads.step`, hence a run does, and what is read is derived. The
other way round all that the grammar derives is read. So the reader takes the
documents of the grammar and no other text: `read_eq_ok_iff`.
-/

namespace FluentFixtures.Json

open Fields (gathered gathered_concat gathered_singleton)

variable {document s t b : Text} {c : CodePoint} {tree : Tree} {outer : List Frame}

/-! ## What is read is derived -/

/-- Whether a text is a token. -/
inductive Token.Spelled : Token → Text → Prop where
  | beginArray : Spelled .beginArray [0x5B]
  | endArray : Spelled .endArray [0x5D]
  | beginObject : Spelled .beginObject [0x7B]
  | endObject : Spelled .endObject [0x7D]
  | colon : Spelled .colon [0x3A]
  | comma : Spelled .comma [0x2C]
  | str {u s : Text} (h : IsString u s) : Spelled (.str u) s
  | scalar {v : Scalar} {s : Text} (h : Derives (.value (.leaf v)) s) : Spelled (.scalar v) s

theorem Token.spelled_of_next {rest : Text} {token : Token} {size : Nat}
    (h : Token.next c t = .ok (token, size, rest)) :
    ∃ s, c :: t = s ++ rest ∧ token.Spelled s := by
  by_cases hquote : c = 0x22
  · subst hquote
    obtain ⟨u, s, htext, rfl, hu⟩ := isString_of_next h
    exact ⟨s, htext, .str hu⟩
  have hquote : ¬ c = '"' := hquote
  unfold Token.next at h
  split_ifs at h with h₁ h₂ h₃ h₄ h₅ h₆
  · cases h
    exact ⟨[0x5B], by rw [h₁]; rfl, .beginArray⟩
  · cases h
    exact ⟨[0x5D], by rw [h₂]; rfl, .endArray⟩
  · cases h
    exact ⟨[0x7B], by rw [h₃]; rfl, .beginObject⟩
  · cases h
    exact ⟨[0x7D], by rw [h₄]; rfl, .endObject⟩
  · cases h
    exact ⟨[0x3A], by rw [h₅]; rfl, .colon⟩
  · cases h
    exact ⟨[0x2C], by rw [h₆]; rfl, .comma⟩
  · obtain ⟨s, v, htext, rfl, hword | ⟨n, hn, hvalue⟩⟩ := scalarToken_eq h
    · exact ⟨s, htext, .scalar (.word hword)⟩
    · exact ⟨s, htext, .scalar (.number hn (Numeral.value_eq_ok_iff.mp hvalue))⟩

/-- Whether a text is what comes before a value, inside containers that are open. -/
inductive Opens : List Frame → Text → Prop where
  | document {b : Text} (hb : Blank b) : Opens [] b
  | firstItem {outer : List Frame} {s b : Text} (h : Opens outer s) (hb : Blank b) :
    Opens (.array [] :: outer) (s ++ 0x5B :: b)
  | nextItem {outer : List Frame} {s s' b : Text} {items : List Tree} (h : Opens outer s)
    (hitems : Derives (.items items) s') (hb : Blank b) :
    Opens (.array items.reverse :: outer) (s ++ 0x5B :: (s' ++ 0x2C :: b))
  | firstField {outer : List Frame} {s s' b name : Text} (h : Opens outer s)
    (hname : IsName name s') (hb : Blank b) :
    Opens (.object [] name :: outer) (s ++ 0x7B :: (s' ++ 0x3A :: b))
  | nextField {outer : List Frame} {s s' s'' b name : Text} {named : List (Text × Tree)}
    (h : Opens outer s) (hfields : Derives (.fields named) s') (hname : IsName name s'')
    (hb : Blank b) : Opens (.object (gathered named) name :: outer)
      (s ++ 0x7B :: (s' ++ 0x2C :: (s'' ++ 0x3A :: b)))

/-- Whether a text is what the reader has taken at a state. -/
inductive Leads : State → Text → Prop where
  | beforeValue {outer : List Frame} {s : Text} (h : Opens outer s) :
    Leads (.beforeValue outer) s
  | beforeFirstItem {outer : List Frame} {s b : Text} (h : Opens outer s) (hb : Blank b) :
    Leads (.beforeFirstItem outer) (s ++ 0x5B :: b)
  | afterItem {outer : List Frame} {s s' : Text} {items : List Tree} (h : Opens outer s)
    (hitems : Derives (.items items) s') :
    Leads (.afterItem items.reverse outer) (s ++ 0x5B :: s')
  | beforeFirstName {outer : List Frame} {s b : Text} (h : Opens outer s) (hb : Blank b) :
    Leads (.beforeFirstName outer) (s ++ 0x7B :: b)
  | beforeName {outer : List Frame} {s s' b : Text} {named : List (Text × Tree)}
    (h : Opens outer s) (hfields : Derives (.fields named) s') (hb : Blank b) :
    Leads (.beforeName (gathered named) outer) (s ++ 0x7B :: (s' ++ 0x2C :: b))
  | afterFirstName {outer : List Frame} {s s' name : Text} (h : Opens outer s)
    (hname : IsName name s') : Leads (.beforeColon [] name outer) (s ++ 0x7B :: s')
  | afterName {outer : List Frame} {s s' s'' name : Text} {named : List (Text × Tree)}
    (h : Opens outer s) (hfields : Derives (.fields named) s') (hname : IsName name s'') :
    Leads (.beforeColon (gathered named) name outer) (s ++ 0x7B :: (s' ++ 0x2C :: s''))
  | afterField {outer : List Frame} {s s' : Text} {named : List (Text × Tree)}
    (h : Opens outer s) (hfields : Derives (.fields named) s') :
    Leads (.afterField (gathered named) outer) (s ++ 0x7B :: s')
  | finished {tree : Tree} {s : Text} (h : Derives (.element tree) s) : Leads (.finished tree) s

/-! ### Blanks that are taken -/

theorem Blank.append {b' : Text} (hb : Blank b) (hb' : Blank b') : Blank (b ++ b') :=
  List.forall_mem_append.mpr ⟨hb, hb'⟩

theorem IsName.append {name : Text} (h : IsName name s) (hb : Blank b) : IsName name (s ++ b) := by
  obtain ⟨hbefore, hname, hafter⟩ := h
  rw [List.append_assoc]
  exact .padded hbefore hname (hafter.append hb)

theorem IsName.before {name : Text} (hb : Blank b) (h : IsString name s) :
    IsName name (b ++ s) := by
  have hname := IsName.padded hb h blank_nil
  rwa [List.append_nil] at hname

namespace Derives

theorem before (hb : Blank b) (h : Derives (.value tree) s) : Derives (.element tree) (b ++ s) := by
  have helement := Derives.element hb h blank_nil
  rwa [List.append_nil] at helement

theorem append_element (h : Derives (.element tree) s) (hb : Blank b) :
    Derives (.element tree) (s ++ b) := by
  cases h with
  | element hbefore h hafter =>
    rw [List.append_assoc]
    exact .element hbefore h (hafter.append hb)

theorem append_items {items : List Tree} (h : Derives (.items items) s) (hb : Blank b) :
    Derives (.items items) (s ++ b) := by
  cases h with
  | item h => exact .item (h.append_element hb)
  | nextItem h ht =>
    rw [List.append_assoc, List.cons_append]
    exact .nextItem h (ht.append_element hb)

theorem append_fields {named : List (Text × Tree)} (h : Derives (.fields named) s)
    (hb : Blank b) : Derives (.fields named) (s ++ b) := by
  cases h with
  | field hname h =>
    rw [List.append_assoc, List.cons_append]
    exact .field hname (h.append_element hb)
  | nextField h hname ht =>
    simp only [List.append_assoc, List.cons_append]
    exact .nextField h hname (ht.append_element hb)

end Derives

theorem Opens.append (h : Opens outer s) (hb : Blank b) : Opens outer (s ++ b) := by
  cases h with
  | document hbefore => exact .document (hbefore.append hb)
  | firstItem h hbefore =>
    simp only [List.append_assoc, List.cons_append]
    exact .firstItem h (hbefore.append hb)
  | nextItem h hitems hbefore =>
    simp only [List.append_assoc, List.cons_append]
    exact .nextItem h hitems (hbefore.append hb)
  | firstField h hname hbefore =>
    simp only [List.append_assoc, List.cons_append]
    exact .firstField h hname (hbefore.append hb)
  | nextField h hfields hname hbefore =>
    simp only [List.append_assoc, List.cons_append]
    exact .nextField h hfields hname (hbefore.append hb)

theorem Leads.append {state : State} (h : Leads state s) (hb : Blank b) :
    Leads state (s ++ b) := by
  cases h with
  | beforeValue h => exact .beforeValue (h.append hb)
  | finished h => exact .finished (h.append_element hb)
  | beforeFirstItem h hbefore =>
    simp only [List.append_assoc, List.cons_append]
    exact .beforeFirstItem h (hbefore.append hb)
  | afterItem h hitems =>
    simp only [List.append_assoc, List.cons_append]
    exact .afterItem h (hitems.append_items hb)
  | beforeFirstName h hbefore =>
    simp only [List.append_assoc, List.cons_append]
    exact .beforeFirstName h (hbefore.append hb)
  | beforeName h hfields hbefore =>
    simp only [List.append_assoc, List.cons_append]
    exact .beforeName h hfields (hbefore.append hb)
  | afterFirstName h hname =>
    simp only [List.append_assoc, List.cons_append]
    exact .afterFirstName h (hname.append hb)
  | afterName h hfields hname =>
    simp only [List.append_assoc, List.cons_append]
    exact .afterName h hfields (hname.append hb)
  | afterField h hfields =>
    simp only [List.append_assoc, List.cons_append]
    exact .afterField h (hfields.append_fields hb)

/-! ### Tokens that are taken -/

theorem Leads.give {v : Text} (h : Opens outer s) (hv : Derives (.value tree) v) :
    Leads (.give tree outer) (s ++ v) := by
  cases h with
  | document hb => exact .finished (.before hb hv)
  | firstItem h hb =>
    rw [List.append_assoc, List.cons_append]
    exact .afterItem h (.item (.before hb hv))
  | @nextItem outer s s' b items h hitems hb =>
    have hall : Derives (.items (items ++ [tree])) (s' ++ 0x2C :: (b ++ v)) :=
      .nextItem hitems (.before hb hv)
    have hleads := Leads.afterItem h hall
    -- The reader has the items in reverse.
    rw [List.reverse_append] at hleads
    simp only [List.append_assoc, List.cons_append]
    exact hleads
  | @firstField outer s s' b name h hname hb =>
    have hall : Derives (.fields [(name, tree)]) (s' ++ 0x3A :: (b ++ v)) :=
      .field hname (.before hb hv)
    have hleads := Leads.afterField h hall
    rw [gathered_singleton] at hleads
    simp only [List.append_assoc, List.cons_append]
    exact hleads
  | @nextField outer s s' s'' b name named h hfields hname hb =>
    have hall : Derives (.fields (named ++ [(name, tree)]))
        (s' ++ 0x2C :: (s'' ++ 0x3A :: (b ++ v))) := .nextField hfields hname (.before hb hv)
    have hleads := Leads.afterField h hall
    rw [gathered_concat] at hleads
    simp only [List.append_assoc, List.cons_append]
    exact hleads

theorem Leads.beginValue {token : Token} {state : State} {l : Text} (h : Opens outer s)
    (htoken : token.Spelled l) (hstep : State.beginValue outer token = some state) :
    Leads state (s ++ l) := by
  cases htoken with
  | beginArray => cases hstep; exact .beforeFirstItem h blank_nil
  | beginObject => cases hstep; exact .beforeFirstName h blank_nil
  | str hstring => cases hstep; exact .give h (.string hstring)
  | scalar hvalue => cases hstep; exact .give h hvalue
  | endArray | endObject | colon | comma => cases hstep

theorem Leads.step {state state' : State} {token : Token} {l : Text} (h : Leads state s)
    (htoken : token.Spelled l) (hstep : state.step token = some state') :
    Leads state' (s ++ l) := by
  cases h with
  | beforeValue h => exact .beginValue h htoken hstep
  | @beforeFirstItem outer s b h hb =>
    cases htoken with
    | endArray =>
      cases hstep
      rw [List.append_assoc]
      exact .give h (.emptyArray hb)
    | beginArray => exact .beginValue (.firstItem h hb) .beginArray hstep
    | beginObject => exact .beginValue (.firstItem h hb) .beginObject hstep
    | str hstring => exact .beginValue (.firstItem h hb) (.str hstring) hstep
    | scalar hvalue => exact .beginValue (.firstItem h hb) (.scalar hvalue) hstep
    | endObject | colon | comma => cases hstep
  | @afterItem outer s s' items h hitems =>
    rw [List.append_assoc, List.cons_append]
    cases htoken with
    | comma => cases hstep; exact .beforeValue (.nextItem h hitems blank_nil)
    | endArray =>
      cases hstep
      rw [List.reverse_reverse]
      exact .give h (.array hitems)
    | _ => cases hstep
  | @beforeFirstName outer s b h hb =>
    rw [List.append_assoc, List.cons_append]
    cases htoken with
    | endObject => cases hstep; exact .give h (.emptyObject hb)
    | str hstring => cases hstep; exact .afterFirstName h (.before hb hstring)
    | _ => cases hstep
  | @beforeName outer s s' b named h hfields hb =>
    simp only [List.append_assoc, List.cons_append]
    cases htoken with
    | str hstring => cases hstep; exact .afterName h hfields (.before hb hstring)
    | _ => cases hstep
  | @afterFirstName outer s s' name h hname =>
    rw [List.append_assoc, List.cons_append]
    cases htoken with
    | colon => cases hstep; exact .beforeValue (.firstField h hname blank_nil)
    | _ => cases hstep
  | @afterName outer s s' s'' name named h hfields hname =>
    simp only [List.append_assoc, List.cons_append]
    cases htoken with
    | colon => cases hstep; exact .beforeValue (.nextField h hfields hname blank_nil)
    | _ => cases hstep
  | @afterField outer s s' named h hfields =>
    rw [List.append_assoc, List.cons_append]
    cases htoken with
    | comma => cases hstep; exact .beforeName h hfields blank_nil
    | endObject => cases hstep; exact .give h (.object hfields)
    | _ => cases hstep
  | finished h => cases hstep

theorem Leads.run {state : State} {offset : Nat} (h : Leads state s)
    (hrun : State.run document state offset t = .ok tree) : Derives (.element tree) (s ++ t) := by
  -- With each blank and each token, what was taken leads to the state that the run goes on from.
  fun_induction State.run document state offset t generalizing s with
  | case1 =>
    obtain rfl := Except.ok.inj hrun
    rw [List.append_nil]
    cases h with
    | finished h => exact h
  | case3 state offset c rest hspace ih =>
    have hblank : Blank [c] := List.forall_mem_singleton.mpr (isSpace_iff.mp hspace)
    have hmore := ih (h.append hblank) hrun
    rwa [List.append_assoc, List.singleton_append] at hmore
  | case6 state offset c rest _ token size more hnext state' hstep ih =>
    obtain ⟨l, htext, htoken⟩ := Token.spelled_of_next hnext
    have hmore := ih (h.step htoken hstep) hrun
    rwa [List.append_assoc, ← htext] at hmore
  | _ => cases hrun

/-! ## Documents -/

theorem derives_of_read (h : read document = .ok tree) : Derives (.element tree) document :=
  Leads.run (.beforeValue (.document blank_nil)) (read_eq_run_iff.mp h)

/-- The documents that are read are those of the grammar, each as the tree that it denotes. -/
theorem read_eq_ok_iff (document : Text) (tree : Tree) :
    read document = .ok tree ↔ Derives (.element tree) document :=
  ⟨derives_of_read, read_of_derives⟩

theorem Derives.element_unique {tree' : Tree} (h : Derives (.element tree) document)
    (h' : Derives (.element tree') document) : tree = tree' :=
  Except.ok.inj ((read_of_derives h).symm.trans (read_of_derives h'))

end FluentFixtures.Json
