import FluentFixtures.Proofs.Json.Viable

/-!
# What stands before a fault

A document that cannot be read is at fault at a place, and nothing in front of
the place is wrong: `read_malformed`. The text there begins a document, and it is
a document if the fault is that something comes after its end. The line and the
column of the place are counted from the line feeds in front of it.
-/

namespace FluentFixtures.Json

variable {document s t : Text} {c : CodePoint} {state : State} {token : Token} {fault : SyntaxFault}
  {place : Place}

/-! ## Sizes of tokens -/

/-- What starts a text is a mark, or the quote of a string, or what starts a scalar. -/
theorem Token.next_cases (c : CodePoint) (t : Text) :
    (∃ mark, Token.next c t = .ok (mark, 1, t)) ∨ c = 0x22 ∨
      Token.next c t = scalarToken (c :: t) := by
  unfold Token.next
  iterate 6 (split; · exact .inl ⟨_, rfl⟩)
  split
  · next hquote => exact .inr (.inl hquote)
  · exact .inr (.inr rfl)

theorem stringRest_size {offset size : Nat} {afterHigh : Bool} {done rest content : Text}
    (h : stringRest offset afterHigh done t = .ok (content, size, rest)) :
    size + rest.length = offset + t.length := by
  fun_induction stringRest offset afterHigh done t with
  | case2 =>
    cases h
    rw [List.length_cons, Nat.add_assoc, Nat.add_comm 1]
  | case4 _ _ _ _ _ _ _ _ _ _ _ _ ih | case7 _ _ _ _ _ _ _ _ _ ih | case10 _ _ _ _ _ _ _ _ ih =>
    have hsize := ih h
    simp only [List.length_cons] at hsize ⊢
    omega
  | _ => cases h

theorem scalarToken_size {size : Nat} {rest : Text}
    (h : scalarToken t = .ok (token, size, rest)) : size + rest.length = t.length := by
  unfold scalarToken at h
  split at h
  · next word value hword =>
    cases h
    have hbegins : word <+: t := by simpa using List.find?_some hword
    rw [List.length_drop, Nat.add_sub_cancel' hbegins.length_le]
  · split at h
    · cases h
    · next n more hn =>
      have hlt := numeral?_length hn
      split at h
      · cases h
      · cases h
        exact Nat.sub_add_cancel hlt.le

theorem Token.next_size {size : Nat} {rest : Text}
    (h : Token.next c t = .ok (token, size, rest)) : size + rest.length = t.length + 1 := by
  rcases Token.next_cases c t with ⟨mark, hmark⟩ | rfl | hscalar
  · cases hmark.symm.trans h
    exact Nat.add_comm 1 _
  · rw [Token.next_quote] at h
    split at h
    · cases h
    · next hrest =>
      cases h
      rw [stringRest_size hrest, Nat.add_comm]
  · rw [hscalar] at h
    exact scalarToken_size h

/-! ## Tokens at fault -/

theorem scalarToken_ne_string {stringFault : StringFault} {within : Nat} :
    scalarToken t ≠ .error (.string stringFault within) := by
  intro h
  unfold scalarToken at h
  split at h
  · cases h
  · split at h
    · cases h
    · split at h
      · next hvalue =>
        cases h
        unfold Numeral.value at hvalue
        split_ifs at hvalue
        cases hvalue
      · cases h

theorem stringRest_of_next {stringFault : StringFault} {within : Nat}
    (h : Token.next c t = .error (.string stringFault within)) :
    c = 0x22 ∧ stringRest 1 false [] t = .error (.string stringFault within) := by
  rcases Token.next_cases c t with ⟨mark, hmark⟩ | rfl | hscalar
  · cases hmark.symm.trans h
  · refine ⟨rfl, ?_⟩
    rw [Token.next_quote] at h
    split at h
    · next hrest =>
      cases h
      exact hrest
    · cases h
  · exact absurd (hscalar.symm.trans h) scalarToken_ne_string

/-- What a fault at a place says of the text in front of it. -/
structure Blames (document : Text) (fault : SyntaxFault) (place : Place) (before : Text) : Prop where
  begins : before <+: document
  place_eq : place = .of document before.length
  viable : Viable before
  complete : fault = .extraData → ∃ tree, Derives (.element tree) before

/-- What a state does not wait for is told where it comes; only the end of a document waits for
nothing. -/
theorem Leads.blames (h : Leads state s) (t : Text) :
    Blames (s ++ t) state.fault (.of (s ++ t) s.length) s := by
  refine ⟨List.prefix_append s t, rfl, h.viable, fun hfault => ?_⟩
  cases h with
  | finished h => exact ⟨_, h⟩
  | _ => cases hfault

/-- A fault inside a string blames the string from where its parts break off, or all of it. -/
theorem Leads.blames_string {stringFault : StringFault} {within : Nat} (h : Leads state s)
    (hstring : state.takesString = true)
    (hnext : Token.next c t = .error (.string stringFault within)) :
    ∃ before, Blames (s ++ c :: t) (.inString stringFault) (.of (s ++ c :: t) (s.length + within))
      before := by
  obtain ⟨rfl, hrest⟩ := stringRest_of_next hnext
  rcases beginsParts_of_stringRest hrest with rfl | ⟨n, rfl, hparts⟩
  · exact ⟨s, List.prefix_append s _, rfl, h.viable, nofun⟩
  · refine ⟨s ++ 0x22 :: t.take n, ?_, ?_, h.viable_string hstring hparts, nofun⟩
    · exact (List.prefix_append_right_inj s).mpr
        ((List.prefix_cons_inj _).mpr (List.take_prefix n t))
    · rw [List.length_append, List.length_cons, List.length_take_of_le hparts.le_length,
        Nat.add_comm n]

theorem Leads.blames_tokenError {tokenFault : TokenFault} (h : Leads state s)
    (hnext : Token.next c t = .error tokenFault)
    (hfault : state.tokenError (s ++ c :: t) s.length tokenFault = .malformed fault place) :
    ∃ before, Blames (s ++ c :: t) fault place before := by
  cases tokenFault with
  | none =>
    cases hfault
    exact ⟨s, h.blames (c :: t)⟩
  | integerTooLong digits =>
    rw [State.tokenError] at hfault
    split at hfault
    · cases hfault
    · cases hfault
      exact ⟨s, h.blames (c :: t)⟩
  | string stringFault within =>
    rw [State.tokenError] at hfault
    split at hfault
    · next hstring =>
      cases hfault
      exact h.blames_string hstring hnext
    · cases hfault
      exact ⟨s, h.blames (c :: t)⟩

/-! ## Documents at fault -/

/-- A run that fails blames nothing that leads to a state on its way. -/
theorem Leads.blames_run {offset : Nat} (h : Leads state s) (hdocument : s ++ t = document)
    (hoffset : s.length = offset)
    (hrun : State.run document state offset t = .error (.malformed fault place)) :
    ∃ before, Blames document fault place before := by
  -- With each blank and each token, what was taken leads to the next state and ends at its offset.
  fun_induction State.run document state offset t generalizing s with
  | case1 => cases hrun
  | case2 =>
    cases hrun
    subst hdocument hoffset
    exact ⟨s, h.blames []⟩
  | case3 state offset c rest hspace ih =>
    have hblank : Blank [c] := List.forall_mem_singleton.mpr (isSpace_iff.mp hspace)
    refine ih (h.append hblank) ?_ ?_ hrun
    · rwa [List.append_assoc]
    · rw [List.length_append, hoffset, List.length_singleton]
  | case4 state offset c rest _ tokenFault hnext =>
    subst hdocument hoffset
    exact h.blames_tokenError hnext (Except.error.inj hrun)
  | case5 state offset c rest =>
    cases hrun
    subst hdocument hoffset
    exact ⟨s, h.blames (c :: rest)⟩
  | case6 state offset c rest _ token size more hnext state' hstep ih =>
    obtain ⟨l, htext, htoken⟩ := Token.spelled_of_next hnext
    have hlength : size = l.length := by
      have hsize := Token.next_size hnext
      rw [← List.length_cons, htext, List.length_append] at hsize
      exact Nat.add_right_cancel hsize
    refine ih (h.step htoken hstep) ?_ ?_ hrun
    · rwa [List.append_assoc, ← htext]
    · rw [List.length_append, hoffset, hlength]

/-- A document that is at fault has a text in front of the fault that is not. -/
theorem exists_blames (h : read document = .error (.malformed fault place)) :
    ∃ before, Blames document fault place before := by
  have hstart : Leads (.beforeValue []) [] := .beforeValue (.document blank_nil)
  rw [read] at h
  split at h
  · cases h
    refine ⟨[], List.nil_prefix, rfl, hstart.viable, fun hfault => ?_⟩
    cases hfault
  · exact hstart.blames_run rfl rfl h

/-! ## Lines and columns -/

/-- Whether the last line feed of a text is at an index. -/
def LastLineFeed (t : Text) (last : Nat) : Prop :=
  t[last]? = some Newline.lineFeed ∧ Newline.lineFeed ∉ t.drop (last + 1)

theorem LastLineFeed.eq_append {last : Nat} (h : LastLineFeed t last) :
    ∃ s line, t = s ++ Newline.lineFeed :: line ∧ s.length = last ∧ Newline.lineFeed ∉ line := by
  obtain ⟨hlast, hline⟩ := h
  obtain ⟨hlt, hfeed⟩ := List.getElem?_eq_some_iff.mp hlast
  refine ⟨t.take last, t.drop (last + 1), ?_, List.length_take_of_le hlt.le, hline⟩
  rw [← hfeed, ← List.drop_eq_getElem_cons hlt, List.take_append_drop]

theorem Place.column_of (document : Text) (offset : Nat) : (Place.of document offset).column =
    ((document.take offset).reverse.takeWhile (· ≠ Newline.lineFeed)).length + 1 := rfl

/-- On its way back, the column counts all of a line. -/
theorem ne_of_mem_line {line : Text} (h : Newline.lineFeed ∉ line) :
    ∀ c ∈ line.reverse, decide (c ≠ Newline.lineFeed) = true := by
  intro c hc
  refine decide_eq_true ?_
  rintro rfl
  exact h (List.mem_reverse.mp hc)

variable {offset : Nat}

theorem column_of_not_mem (h : Newline.lineFeed ∉ document.take offset)
    (hoffset : offset ≤ document.length) : (Place.of document offset).column = offset + 1 := by
  rw [Place.column_of, List.takeWhile_eq_self_iff.mpr (ne_of_mem_line h), List.length_reverse,
    List.length_take_of_le hoffset]

theorem column_of_last {last : Nat} (h : LastLineFeed (document.take offset) last)
    (hoffset : offset ≤ document.length) : (Place.of document offset).column = offset - last := by
  obtain ⟨s, line, htake, rfl, hline⟩ := h.eq_append
  have hlength := congrArg List.length htake
  rw [List.length_take_of_le hoffset, List.length_append, List.length_cons] at hlength
  have hreverse : (document.take offset).reverse =
      line.reverse ++ Newline.lineFeed :: s.reverse := by
    rw [htake]
    simp
  rw [Place.column_of, hreverse, List.takeWhile_append_of_pos (ne_of_mem_line hline),
    List.takeWhile_cons_of_neg (by simp), List.append_nil, List.length_reverse, hlength,
    Nat.add_sub_cancel_left]

/-! ## Places -/

theorem eq_extraData_of_message (h : fault.message = ("Extra data" : Text)) :
    fault = .extraData := by
  cases fault with
  | extraData => rfl
  | inString stringFault => cases stringFault <;> exact absurd h (by decide)
  | _ => exact absurd h (by decide)

/-- What the place of a fault says of the document. -/
structure Locates (document : Text) (fault : SyntaxFault) (place : Place) : Prop where
  offset : place.offset ≤ document.length
  viable : Viable (document.take place.offset)
  extraData : fault.message = ("Extra data" : Text) →
    ∃ tree, read (document.take place.offset) = .ok tree
  line : place.line = 1 + (document.take place.offset).count Newline.lineFeed
  firstColumn : Newline.lineFeed ∉ document.take place.offset → place.column = place.offset + 1
  column : ∀ last, LastLineFeed (document.take place.offset) last →
    place.column = place.offset - last

/-- The text in front of the place of a fault is the beginning of a document, and it is one if the
fault is that something comes after it. The line is one more than there are line feeds in front of
the place, and the column is the distance from the last of them, or from before the document. -/
theorem read_malformed (h : read document = .error (.malformed fault place)) :
    Locates document fault place := by
  obtain ⟨before, hblames⟩ := exists_blames h
  obtain ⟨after, rfl⟩ := hblames.begins
  obtain rfl := hblames.place_eq
  have hoffset : before.length ≤ (before ++ after).length := hblames.begins.length_le
  have hbefore : (before ++ after).take before.length = before := List.take_left
  constructor
  case offset => exact hoffset
  case viable => exact hbefore.symm ▸ hblames.viable
  case extraData =>
    intro hmessage
    obtain ⟨tree, hderives⟩ := hblames.complete (eq_extraData_of_message hmessage)
    exact ⟨tree, hbefore.symm ▸ read_of_derives hderives⟩
  case line => exact Nat.add_comm _ 1
  case firstColumn => exact fun hnone => column_of_not_mem hnone hoffset
  case column => exact fun last hlast => column_of_last hlast hoffset

/-- A document that is cut off in the number of an escape, after the number of a high surrogate. -/
def cutOff : Text := "\x7b\"k\":[\n\"\\ud83d\\u"

theorem read_cutOff :
    read cutOff = .error (.malformed (.inString .invalidUnicodeEscape) ⟨15, 2, 9⟩) := by
  have htext : cutOff = [0x7B, 0x22, 0x6B, 0x22, 0x3A, 0x5B, 0x0A, 0x22, 0x5C, 0x75, 0x64, 0x38,
    0x33, 0x64, 0x5C, 0x75] := rfl
  rw [htext, read, if_neg (by decide)]
  refine Eq.trans (run_token rfl rfl rfl) ?_
  refine Eq.trans (run_token rfl rfl rfl) ?_
  refine Eq.trans (run_token rfl rfl rfl) ?_
  refine Eq.trans (run_token rfl rfl rfl) ?_
  refine Eq.trans (run_space rfl) ?_
  refine Eq.trans (run_tokenFault rfl rfl) ?_
  rfl

/-- An empty array with something after it. -/
def twoTexts : Text := "[]\n\n x"

theorem read_twoTexts : read twoTexts = .error (.malformed .extraData ⟨5, 3, 2⟩) := by
  have htext : twoTexts = [0x5B, 0x5D, 0x0A, 0x0A, 0x20, 0x78] := rfl
  rw [htext, read, if_neg (by decide)]
  refine Eq.trans (run_token rfl rfl rfl) ?_
  refine Eq.trans (run_token rfl rfl rfl) ?_
  refine Eq.trans (run_space rfl) ?_
  refine Eq.trans (run_space rfl) ?_
  refine Eq.trans (run_space rfl) ?_
  refine Eq.trans (run_tokenFault rfl rfl) ?_
  rfl

theorem read_malformed_cutOff :
    (read cutOff = .error (.malformed (.inString .invalidUnicodeEscape) ⟨15, 2, 9⟩) ∧
      Viable (cutOff.take 15) ∧ 2 = 1 + (cutOff.take 15).count Newline.lineFeed ∧
      LastLineFeed (cutOff.take 15) 6 ∧ 9 = 15 - 6) ∧
    read twoTexts = .error (.malformed .extraData ⟨5, 3, 2⟩) ∧
      ∃ tree, read (twoTexts.take 5) = .ok tree := by
  have hfirst := read_malformed read_cutOff
  have hsecond := read_malformed read_twoTexts
  have hlast : LastLineFeed (cutOff.take 15) 6 := ⟨rfl, by decide⟩
  exact ⟨⟨read_cutOff, hfirst.viable, hfirst.line, hlast, hfirst.column 6 hlast⟩, read_twoTexts,
    hsecond.extraData rfl⟩

end FluentFixtures.Json
