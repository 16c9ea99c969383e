import FluentFixtures.Proofs.Text.Utf8
import FluentFixtures.Proofs.Yaml.Parse

/-!
# Documents as configuration files

A file that holds the document of a tree of printable strings has the value of
that tree: `read_render`. So the reader of this part of YAML is one that reads
documents: `readsDocuments_reader`. Quoted scalars are strings whatever they say, so the
check of the graph finds nothing at fault.
-/

namespace FluentFixtures

namespace Yaml

open Config (Value entriesOf itemsOf textOf valueOf)

/-! ## The graph -/

variable {t : Tree} {n : Node}

/-- The tokens of a tree make up a graph whose root spells it. -/
theorem ofTokens_of_lexemes (hheight : t.height ≤ Parse.depthLimit) {tokens : List Token}
    (htokens : tokens.map Token.lexeme = lexemes t ++ [.streamEnd]) :
    ∃ n, Graph.ofTokens ⟨tokens, none⟩ = .ok ⟨some n, []⟩ ∧ Spells t n := by
  obtain ⟨front, closing, rfl, hfront, hclosing⟩ := List.map_eq_append_iff.mp htokens
  obtain ⟨mark, rfl⟩ := Parse.exists_single hclosing
  have hroot : Parse.depth [] + t.height ≤ Parse.depthLimit := by
    simpa [Parse.depth] using hheight
  obtain ⟨n, hn, hspells⟩ : ∃ n, Parse.Steps ⟨[], [], .start⟩ front ⟨[], [], Parse.give n []⟩ ∧
      Spells t n := Parse.steps_lexemes t .start hroot hfront
  have hend : Parse.Steps ⟨[], [], Parse.give n []⟩ [⟨.streamEnd, mark⟩]
      ⟨[], [], .finished (some n)⟩ := Parse.steps_single rfl
  have hall : (front ++ [Token.mk .streamEnd mark]).foldlM Parse.step {} =
      .ok ⟨[], [], .finished (some n)⟩ := hn.append hend
  refine ⟨n, ?_, hspells⟩
  rw [Graph.ofTokens, hall]
  rfl

mutual

theorem value_of_spells (known : Text → Value) :
    ∀ {t : Tree} {n : Node}, Spells t n → n.value known = valueOf t
  | .leaf _, _, ⟨_, rfl⟩ => rfl
  | .seq _, _, ⟨_, _, rfl, hitems⟩ => congrArg Value.list (valuesOfItems_of_spells known hitems)
  | .keyed _, _, ⟨_, _, rfl, hfields⟩ =>
    congrArg (fun entries => Value.mapping (KeyMap.ofList entries))
      (valuesOfEntries_of_spells known hfields)

theorem valuesOfItems_of_spells (known : Text → Value) :
    ∀ {items : List Tree} {nodes : List Node}, SpellsItems items nodes →
      valuesOfItems known nodes = itemsOf items
  | [], _, rfl => rfl
  | _ :: _, _, ⟨_, _, rfl, hn, hmore⟩ =>
    congrArg₂ List.cons (value_of_spells known hn) (valuesOfItems_of_spells known hmore)

theorem valuesOfEntries_of_spells (known : Text → Value) :
    ∀ {fields : List (Text × Tree)} {entries : List (Node × Node)}, SpellsFields fields entries →
      valuesOfEntries known entries = entriesOf fields
  | [], _, rfl => rfl
  | (_, _) :: _, _, ⟨_, _, _, rfl, hn, hmore⟩ =>
    congrArg₂ List.cons (congrArg (Prod.mk _) (value_of_spells known hn))
      (valuesOfEntries_of_spells known hmore)

end

/-! ## The check -/

namespace Check

variable {c : Check}

/-- Whether all that is left to look at spells trees. -/
def Spelled (c : Check) : Prop := ∀ n ∈ c.next, ∃ t, Spells t n

theorem exists_of_spellsItems : ∀ {items : List Tree} {nodes : List Node}, SpellsItems items nodes →
    ∀ n ∈ nodes, ∃ t, Spells t n
  | [], _, rfl, _, h => absurd h List.not_mem_nil
  | _ :: _, _, ⟨_, _, rfl, hn, hmore⟩, m, hm => by
    rcases List.mem_cons.mp hm with rfl | hm
    · exact ⟨_, hn⟩
    · exact exists_of_spellsItems hmore m hm

theorem exists_of_spellsFields : ∀ {fields : List (Text × Tree)} {entries : List (Node × Node)},
    SpellsFields fields entries → ∀ entry ∈ entries,
      (∃ mark name, entry.1 = .scalar mark false name) ∧ ∃ t, Spells t entry.2
  | [], _, rfl, _, h => absurd h List.not_mem_nil
  | _ :: _, _, ⟨mark, _, _, rfl, hn, hmore⟩, entry, hentry => by
    rcases List.mem_cons.mp hentry with rfl | hentry
    · exact ⟨⟨mark, _, rfl⟩, _, hn⟩
    · exact exists_of_spellsFields hmore entry hentry

theorem meet_of_spells (h : Spells t n) (hc : c.Spelled) :
    ∃ c', meet [] c n = .ok c' ∧ c'.Spelled := by
  cases t with
  | leaf value =>
    obtain ⟨mark, rfl⟩ := h
    exact ⟨c, rfl, hc⟩
  | seq items =>
    have hnode := h
    obtain ⟨mark, nodes, rfl, -⟩ := hnode
    exact ⟨_, rfl, List.forall_mem_cons.mpr ⟨⟨_, h⟩, hc⟩⟩
  | keyed fields =>
    have hnode := h
    obtain ⟨mark, entries, rfl, -⟩ := hnode
    exact ⟨_, rfl, List.forall_mem_cons.mpr ⟨⟨_, h⟩, hc⟩⟩

/-- Quoted keys are no signs to be noted. -/
theorem foldl_noteKey {keys : List Node}
    (h : ∀ key ∈ keys, ∃ mark name, key = .scalar mark false name) :
    keys.foldl (noteKey []) c = c := by
  induction keys with
  | nil => rfl
  | cons key keys ih =>
    obtain ⟨⟨mark, name, rfl⟩, hkeys⟩ := List.forall_mem_cons.mp h
    exact ih hkeys

theorem visit_of_spells (h : Spells t n) (hc : c.Spelled) :
    ∃ c', visit [] c n = .ok c' ∧ c'.Spelled := by
  cases t with
  | leaf value =>
    obtain ⟨mark, rfl⟩ := h
    exact ⟨c, rfl, hc⟩
  | seq items =>
    obtain ⟨mark, nodes, rfl, hitems⟩ := h
    refine exists_foldlM (fun c hc m hm => ?_) hc
    obtain ⟨t, ht⟩ := exists_of_spellsItems hitems m hm
    exact meet_of_spells ht hc
  | keyed fields =>
    obtain ⟨mark, entries, rfl, hfields⟩ := h
    have hentries := exists_of_spellsFields hfields
    have hkeys : (entries.map Prod.fst).foldl (noteKey []) c = c := by
      refine foldl_noteKey fun key hkey => ?_
      obtain ⟨entry, hentry, rfl⟩ := List.mem_map.mp hkey
      exact (hentries entry hentry).1
    rw [visit, hkeys]
    refine exists_foldlM (fun c hc entry hentry => ?_) hc
    obtain ⟨⟨mark, name, hkey⟩, t, ht⟩ := hentries entry hentry
    obtain ⟨c', hmeet, hc'⟩ := meet_of_spells ht hc
    refine ⟨c', ?_, hc'⟩
    rw [hkey]
    exact hmeet

/-- The waves of a tree of strings find nothing at fault. -/
theorem waves_of_spelled (hc : c.Spelled) (fuel : Nat) : c.waves [] fuel = .ok () := by
  induction fuel generalizing c with
  | zero => rfl
  | succ fuel ih =>
    rw [waves]
    split
    · rfl
    · obtain ⟨c', hwave, hc'⟩ := exists_foldlM (l := c.next.reverse) (g := visit [])
        (s := { c with next := [] }) (p := Spelled)
        (fun c' hc' m hm => by
          obtain ⟨t, ht⟩ := hc m (List.mem_reverse.mp hm)
          exact visit_of_spells ht hc') nofun
      rw [hwave]
      exact ih hc'

end Check

theorem check_of_spells (h : Spells t n) : Graph.check ⟨some n, []⟩ = .ok () := by
  obtain ⟨c, hmeet, hc⟩ := Check.meet_of_spells h (c := {}) nofun
  rw [Graph.check]
  simp only [hmeet]
  exact Check.waves_of_spelled hc _

/-! ## Files -/

theorem ofBytes_of_printableLines {t : Text} {bytes : Bytes} (ht : Json.PrintableLines t)
    (hbytes : Utf8.encode? t = some bytes) : Source.ofBytes bytes = { text := t } := by
  have hreturn : Newline.carriageReturn ∉ t := by
    intro hmem
    rcases ht _ hmem with hc | hc
    · exact absurd hc.1 (by decide)
    · cases hc
  have hallowed : t.all isAllowed = true := by
    refine List.all_eq_true.mpr fun c hc => ?_
    rcases ht c hc with hc | rfl
    · simp [isAllowed, hc]
    · decide
  rw [Source.ofBytes, Utf8.decode_eq_ok_iff.mpr hbytes]
  simp only [Newline.unify_eq_self hreturn, hallowed, if_true]

/-- A document of a tree of strings, with blanks behind it, has the value of the tree. -/
theorem read_render (indent : Nat) {t : Tree} (ht : t.Printable)
    (hheight : t.height ≤ Parse.depthLimit) {blanks : Text} (hblanks : Text.IsSpacing blanks)
    {bytes : Bytes} (hbytes : Utf8.encode? (Json.render indent 0 t ++ blanks) = some bytes) :
    read bytes = .ok (valueOf t) := by
  have hlines : Json.PrintableLines (Json.render indent 0 t ++ blanks) :=
    (Json.printableLines_render ht 0).append (.of_spacing hblanks)
  have hsource := ofBytes_of_printableLines hlines hbytes
  obtain ⟨tokens, hrun, htokens⟩ := Scan.run_render indent ht hblanks ⟨0, 0, 0⟩
  obtain ⟨n, hgraph, hspells⟩ := ofTokens_of_lexemes hheight htokens
  have hspots : spots (Json.render indent 0 t ++ blanks) =
      Place.spots ⟨0, 0, 0⟩ (Json.render indent 0 t ++ blanks) := by
    unfold spots
    split
    · next c rest heq =>
      have hmark : c ≠ byteOrderMark := by
        rintro rfl
        rcases hlines byteOrderMark (heq ▸ List.mem_cons_self) with hc | hc
        · exact absurd hc.2 (by decide)
        · cases hc
      rw [if_neg hmark, heq]
      rfl
    · next heq =>
      rw [heq]
      rfl
  have htokens : (Source.mk (Json.render indent 0 t ++ blanks) none).tokens = ⟨tokens, none⟩ := by
    rw [Source.tokens, Source.spots]
    simp only [hspots, hrun]
    rfl
  rw [read, hsource, htokens, hgraph]
  show (do
    Graph.check ⟨some n, []⟩
    .ok (Graph.value ⟨some n, []⟩)) = _
  rw [check_of_spells hspells]
  exact congrArg Except.ok (value_of_spells _ hspells)

theorem readsDocuments_reader : Config.Reader.ReadsDocuments reader := by
  intro t ht hheight indent blanks hblanks path bytes hbytes
  have hdeep : t.height ≤ Parse.depthLimit := hheight.trans (by decide)
  rw [reader, read_render indent ht hdeep hblanks hbytes]
  rfl

end Yaml

end FluentFixtures
