import FluentFixtures.Proofs.Yaml.Scan

/-!
# Documents as flow collections

The text of a tree of printable strings is a configuration file: each node is
taken as a flow collection or a quoted scalar, and the file as the tokens of the
tree and its end: `run_render`.
-/

namespace FluentFixtures

namespace Yaml

open Config (textOf)

/-! ## The tokens of a tree -/

mutual

/-- The tokens of a tree of strings. -/
def lexemes : Tree → List Lexeme
  | .leaf value => [.scalar false (textOf value)]
  | .seq [] => [.flowSequenceStart, .flowSequenceEnd]
  | .seq (t :: rest) =>
    [.flowSequenceStart] ++ lexemes t ++ itemLexemes rest ++ [.flowSequenceEnd]
  | .keyed [] => [.flowMappingStart, .flowMappingEnd]
  | .keyed ((name, t) :: rest) =>
    [.flowMappingStart] ++ [.key, .scalar false name, .value] ++ lexemes t ++ fieldLexemes rest ++
      [.flowMappingEnd]

def itemLexemes : List Tree → List Lexeme
  | [] => []
  | t :: rest => [.flowEntry] ++ lexemes t ++ itemLexemes rest

def fieldLexemes : List (Text × Tree) → List Lexeme
  | [] => []
  | (name, t) :: rest =>
    [.flowEntry] ++ [.key, .scalar false name, .value] ++ lexemes t ++ fieldLexemes rest

end

namespace Scan

/-! ## Taking a tree -/

variable {depth : Nat} {mayKey : Bool} {blanks : Text}

theorem takes_nil : Takes depth mayKey [] depth mayKey [] := by
  intro st done p rest hst
  exact ⟨st, p, rfl, (List.append_nil done).symm ▸ hst⟩

theorem takes_openSequence (depth : Nat) (mayKey : Bool) (hblanks : Text.IsSpacing blanks) :
    Takes depth mayKey (blanks ++ [0x5B]) (depth + 1) true [.flowSequenceStart] :=
  takes_open hblanks (by decide) fun st s next hs => by rw [indicator?, hs]; rfl

theorem takes_closeSequence (hblanks : Text.IsSpacing blanks) :
    Takes (depth + 1) mayKey (blanks ++ [0x5D]) depth false [.flowSequenceEnd] :=
  takes_close hblanks (by decide) fun st s next hs => by rw [indicator?, hs]; rfl

theorem takes_openMapping (depth : Nat) (mayKey : Bool) (hblanks : Text.IsSpacing blanks) :
    Takes depth mayKey (blanks ++ [0x7B]) (depth + 1) true [.flowMappingStart] :=
  takes_open hblanks (by decide) fun st s next hs => by rw [indicator?, hs]; rfl

theorem takes_closeMapping (hblanks : Text.IsSpacing blanks) :
    Takes (depth + 1) mayKey (blanks ++ [0x7D]) depth false [.flowMappingEnd] :=
  takes_close hblanks (by decide) fun st s next hs => by rw [indicator?, hs]; rfl

theorem isSpacing_nil : Text.IsSpacing [] := nofun

theorem isSpacing_space : Text.IsSpacing [0x20] := List.forall_mem_singleton.mpr (.inl rfl)

variable {indent : Nat}

mutual

theorem takes_render : ∀ {t : Tree}, t.Printable → ∀ (level : Nat) {depth : Nat} {mayKey : Bool}
    {blanks : Text}, Text.IsSpacing blanks →
      Takes depth mayKey (blanks ++ Json.render indent level t) depth false (lexemes t)
  | .leaf value, h, _, _, _, _, hblanks => by
    obtain ⟨t, rfl, ht⟩ := h
    exact takes_quote hblanks ht
  | .seq [], _, _, depth, mayKey, blanks, hblanks => by
    have hall := (takes_openSequence depth mayKey hblanks).append
      (takes_closeSequence isSpacing_nil)
    rw [List.append_assoc] at hall
    exact hall
  | .seq (t :: rest), ⟨_, ht, hrest⟩, level, depth, mayKey, blanks, hblanks => by
    have hfirst := (takes_openSequence depth mayKey hblanks).append
      (takes_render ht (level + 1) (Json.isSpacing_newline indent (level + 1)))
    have hall := (hfirst.append (takes_renderItems hrest (level + 1))).append
      (takes_closeSequence (Json.isSpacing_newline indent level))
    rw [Json.render, lexemes]
    simp only [List.append_assoc] at hall ⊢
    exact hall
  | .keyed [], _, _, depth, mayKey, blanks, hblanks => by
    have hall := (takes_openMapping depth mayKey hblanks).append
      (takes_closeMapping isSpacing_nil)
    rw [List.append_assoc] at hall
    exact hall
  | .keyed ((name, t) :: rest), ⟨hnames, ht, hrest⟩, level, depth, mayKey, blanks, hblanks => by
    obtain ⟨hname, hothers⟩ := List.forall_mem_cons.mp hnames
    have hkey := (takes_openMapping depth mayKey hblanks).append
      (takes_key (Json.isSpacing_newline indent (level + 1)) hname.1 hname.2)
    have hfirst := hkey.append (takes_render ht (level + 1) isSpacing_space)
    have hall := (hfirst.append (takes_renderFields hothers hrest (level + 1))).append
      (takes_closeMapping (Json.isSpacing_newline indent level))
    rw [Json.render, lexemes]
    simp only [List.append_assoc] at hall ⊢
    exact hall

theorem takes_renderItems : ∀ {items : List Tree},
    Tree.EveryItem (Tree.Node Scalar.IsPrintable Tree.NamesShort) items → ∀ (level : Nat)
      {depth : Nat}, Takes depth false (Json.renderItems indent level items) depth false
        (itemLexemes items)
  | [], _, _, _ => takes_nil
  | t :: rest, ⟨ht, hrest⟩, level, depth => by
    have hitem := (takes_comma depth false isSpacing_nil).append
      (takes_render ht level (Json.isSpacing_newline indent level))
    have hall := hitem.append (takes_renderItems hrest level)
    rw [Json.renderItems, itemLexemes]
    simp only [List.append_assoc] at hall ⊢
    exact hall

theorem takes_renderFields : ∀ {fields : List (Text × Tree)},
    Tree.NamesShort (fields.map Prod.fst) →
      Tree.EveryField (Tree.Node Scalar.IsPrintable Tree.NamesShort) fields → ∀ (level : Nat)
        {depth : Nat}, Takes (depth + 1) false (Json.renderFields indent level fields) (depth + 1)
          false (fieldLexemes fields)
  | [], _, _, _, _ => takes_nil
  | (name, t) :: rest, hnames, ⟨ht, hrest⟩, level, depth => by
    obtain ⟨hname, hothers⟩ := List.forall_mem_cons.mp hnames
    have hkey := (takes_comma (depth + 1) false isSpacing_nil).append
      (takes_key (Json.isSpacing_newline indent level) hname.1 hname.2)
    have hfield := hkey.append (takes_render ht level isSpacing_space)
    have hall := hfield.append (takes_renderFields hothers hrest level)
    rw [Json.renderFields, fieldLexemes]
    simp only [List.append_assoc] at hall ⊢
    exact hall

end

theorem Inside.run_end {st : Scan} {done : List Lexeme} (h : st.Inside 0 mayKey done)
    (hblanks : Text.IsSpacing blanks) (p : Place) :
    ∃ tokens, run st (p.spots blanks) = ⟨tokens, none⟩ ∧
      tokens.map Token.lexeme = done ++ [.streamEnd] := by
  obtain ⟨broke, p', hskip⟩ := skip_blanks hblanks p false []
  have hskip : skip false false (p.spots blanks) = (broke, [p'.spot 0]) := by
    rw [List.append_nil] at hskip
    exact hskip
  have hhere := (h.onLine broke).fresh (p'.spot 0)
  obtain ⟨candidates, hdrop, -⟩ := dropCandidate_of_free hhere.free (p'.spot 0)
  have hfetch := fetch_of_end h.free h.outer hskip rfl
  rw [finish, unwind_of_outer hhere.outer, hdrop] at hfetch
  rw [run_of_fetch (p.spots_ne_nil blanks) hfetch, run]
  refine ⟨_, rfl, ?_⟩
  have hnone : ∀ c ∈ ([] : List Candidate), c.required = false := fun _ hc =>
    absurd hc List.not_mem_nil
  have hlexemes := (hhere.push_here .streamEnd (p'.spot 0).mark [] hnone false).lexemes
  exact hlexemes

/-- The tokens of the text of a tree, with blanks after it. -/
theorem run_render (indent : Nat) {t : Tree} (ht : t.Printable) (hblanks : Text.IsSpacing blanks)
    (p : Place) :
    ∃ tokens, run {} (p.spots (Json.render indent 0 t ++ blanks)) = ⟨tokens, none⟩ ∧
      tokens.map Token.lexeme = lexemes t ++ [.streamEnd] := by
  have hstart : Inside {} 0 true [] := ⟨rfl, rfl, rfl, rfl, rfl, nofun, fun _ => rfl⟩
  obtain ⟨st, p', hrun, hst⟩ := takes_render ht 0 isSpacing_nil {} [] p blanks hstart
  obtain ⟨tokens, hend, htokens⟩ := hst.run_end hblanks p'
  exact ⟨tokens, hrun.trans hend, htokens⟩

end Scan

end Yaml

end FluentFixtures
