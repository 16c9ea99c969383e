import FluentFixtures.Json.Compact
import FluentFixtures.Proofs.Json.RoundTrip
import FluentFixtures.Proofs.Text.Utf8
import FluentFixtures.Proofs.Tree.Printable

/-!
# Documents of printable strings

Printable text is itself in quotes but for two escapes, so the document of a tree
of printable strings is of printable lines, however it is laid out, and has bytes
in UTF-8. On one line it is read as the tree again: `read_compact`.
-/

namespace FluentFixtures.Json

section Points

variable {c : CodePoint} {t : Text}

theorem escapePoint_of_printable (hc : 0x20 ≤ c.val ∧ c.val ≤ 0x7E)
    (hquote : c ≠ CodePoint.ofChar '"') (hescape : c ≠ CodePoint.ofChar '\\') :
    escapePoint c = [c] := by
  have hne : ∀ d : CodePoint, d.val < 0x20 → c ≠ d := by
    rintro d hd rfl
    omega
  rw [escapePoint, if_neg hquote, if_neg hescape, if_neg (hne _ (by decide)),
    if_neg (hne _ (by decide)), if_neg (hne _ (by decide)), if_neg (hne _ (by decide)),
    if_neg (hne _ (by decide)), if_neg (Nat.not_lt.mpr hc.1)]

theorem printable_escapePoint (hc : 0x20 ≤ c.val ∧ c.val ≤ 0x7E) :
    Text.PrintableAscii (escapePoint c) := by
  by_cases hquote : c = CodePoint.ofChar '"'
  · subst hquote
    decide
  by_cases hescape : c = CodePoint.ofChar '\\'
  · subst hescape
    decide
  rw [escapePoint_of_printable hc hquote hescape]
  exact List.forall_mem_singleton.mpr hc

theorem printable_flatMap_escapePoint (ht : t.PrintableAscii) :
    Text.PrintableAscii (t.flatMap escapePoint) := by
  intro d hd
  obtain ⟨c, hc, hd⟩ := List.mem_flatMap.mp hd
  exact printable_escapePoint (ht c hc) d hd

/-- An escape is of two code points. -/
theorem length_escapePoint_le (hc : 0x20 ≤ c.val ∧ c.val ≤ 0x7E) :
    (escapePoint c).length ≤ 2 := by
  by_cases hquote : c = CodePoint.ofChar '"'
  · subst hquote
    decide
  by_cases hescape : c = CodePoint.ofChar '\\'
  · subst hescape
    decide
  rw [escapePoint_of_printable hc hquote hescape]
  exact Nat.le_succ 1

theorem length_flatMap_escapePoint_le (ht : t.PrintableAscii) :
    (t.flatMap escapePoint).length ≤ 2 * t.length := by
  induction t with
  | nil => exact Nat.le_refl 0
  | cons c t ih =>
    obtain ⟨hc, ht⟩ := List.forall_mem_cons.mp ht
    have hfirst := length_escapePoint_le hc
    have hrest := ih ht
    rw [List.flatMap_cons, List.length_append, List.length_cons]
    omega

theorem length_quote_le (ht : t.PrintableAscii) : (quote t).length ≤ 2 * t.length + 2 := by
  rw [quote, List.length_append, List.length_cons]
  exact Nat.add_le_add_right (Nat.add_le_add_right (length_flatMap_escapePoint_le ht) 1) 1

end Points

/-! ## Lines -/

/-- Whether a text is printable ASCII and line feeds. -/
def PrintableLines (t : Text) : Prop :=
  ∀ c ∈ t, (0x20 ≤ c.val ∧ c.val ≤ 0x7E) ∨ c = Newline.lineFeed

theorem PrintableLines.append {s t : Text} (hs : PrintableLines s) (ht : PrintableLines t) :
    PrintableLines (s ++ t) :=
  List.forall_mem_append.mpr ⟨hs, ht⟩

theorem PrintableLines.of_printable {t : Text} (ht : t.PrintableAscii) : PrintableLines t :=
  fun c hc => .inl (ht c hc)

theorem PrintableLines.of_spacing {t : Text} (ht : t.IsSpacing) : PrintableLines t := by
  intro c hc
  rcases ht c hc with rfl | rfl
  · exact .inl (by decide)
  · exact .inr rfl

theorem printable_quote {t : Text} (ht : t.PrintableAscii) : Text.PrintableAscii (quote t) := by
  have hmark : Text.PrintableAscii [0x22] := by decide
  exact List.forall_mem_append.mpr
    ⟨List.forall_mem_append.mpr ⟨hmark, printable_flatMap_escapePoint ht⟩, hmark⟩

theorem printableLines_label {name : Text} (hname : name.PrintableAscii) :
    PrintableLines (quote name ++ [0x3A, 0x20]) :=
  .append (.of_printable (printable_quote hname))
    (.of_printable (t := [0x3A, 0x20]) (by decide))

theorem isSpacing_newline (indent depth : Nat) : Text.IsSpacing (newline indent depth) := by
  intro c hc
  rcases List.mem_cons.mp hc with rfl | hc
  · exact .inr rfl
  · exact .inl (List.eq_of_mem_replicate hc)

theorem printableLines_newline (indent level : Nat) : PrintableLines (newline indent level) :=
  .of_spacing (isSpacing_newline indent level)

variable {indent : Nat}

mutual

theorem printableLines_render : ∀ {t : Tree}, t.Printable → ∀ level : Nat,
    PrintableLines (render indent level t)
  | .leaf _, ⟨_, rfl, ht⟩, _ => .of_printable (printable_quote ht)
  | .seq [], _, _ => .of_printable (t := [0x5B, 0x5D]) (by decide)
  | .seq (t :: rest), ⟨_, ht, hrest⟩, level => by
    have hopen : PrintableLines [0x5B] := .of_printable (by decide)
    have hclose : PrintableLines [0x5D] := .of_printable (by decide)
    have hfirst := (hopen.append (printableLines_newline indent (level + 1))).append
      (printableLines_render ht (level + 1))
    rw [render]
    exact ((hfirst.append (printableLines_renderItems hrest (level + 1))).append
      (printableLines_newline indent level)).append hclose
  | .keyed [], _, _ => .of_printable (t := [0x7B, 0x7D]) (by decide)
  | .keyed ((name, t) :: rest), ⟨hnames, ht, hrest⟩, level => by
    obtain ⟨hname, hothers⟩ := List.forall_mem_cons.mp hnames
    have hopen : PrintableLines [0x7B] := .of_printable (by decide)
    have hclose : PrintableLines [0x7D] := .of_printable (by decide)
    have hfirst := ((hopen.append (printableLines_newline indent (level + 1))).append
      (printableLines_label hname.1)).append (printableLines_render ht (level + 1))
    have hall := ((hfirst.append (printableLines_renderFields hothers hrest (level + 1))).append
      (printableLines_newline indent level)).append hclose
    rw [render]
    simp only [List.append_assoc] at hall ⊢
    exact hall

theorem printableLines_renderItems : ∀ {items : List Tree},
    Tree.EveryItem (Tree.Node Scalar.IsPrintable Tree.NamesShort) items → ∀ level : Nat,
      PrintableLines (renderItems indent level items)
  | [], _, _ => nofun
  | t :: rest, ⟨ht, hrest⟩, level => by
    have hcomma : PrintableLines [0x2C] := .of_printable (by decide)
    rw [renderItems]
    exact ((hcomma.append (printableLines_newline indent level)).append
      (printableLines_render ht level)).append (printableLines_renderItems hrest level)

theorem printableLines_renderFields : ∀ {fields : List (Text × Tree)},
    Tree.NamesShort (fields.map Prod.fst) →
      Tree.EveryField (Tree.Node Scalar.IsPrintable Tree.NamesShort) fields → ∀ level : Nat,
        PrintableLines (renderFields indent level fields)
  | [], _, _, _ => nofun
  | (name, t) :: rest, hnames, ⟨ht, hrest⟩, level => by
    obtain ⟨hname, hothers⟩ := List.forall_mem_cons.mp hnames
    have hcomma : PrintableLines [0x2C] := .of_printable (by decide)
    have hall := (((hcomma.append (printableLines_newline indent level)).append
      (printableLines_label hname.1)).append (printableLines_render ht level)).append
      (printableLines_renderFields hothers hrest level)
    rw [renderFields]
    simp only [List.append_assoc] at hall ⊢
    exact hall

end

theorem isSurrogate_of_printable {t : Text} (ht : t.PrintableAscii) :
    ∀ c ∈ t, c.isSurrogate = false := by
  intro c hc
  obtain ⟨-, hlast⟩ := ht c hc
  exact CodePoint.isSurrogate_eq_false.mpr (.inl (by omega))

theorem PrintableLines.isSurrogate {t : Text} (ht : PrintableLines t) :
    ∀ c ∈ t, c.isSurrogate = false := by
  intro c hc
  rcases ht c hc with hprintable | rfl
  · exact CodePoint.isSurrogate_eq_false.mpr (.inl (by omega))
  · rfl

theorem PrintableLines.encode? {t : Text} (ht : PrintableLines t) :
    ∃ bytes, Utf8.encode? t = some bytes :=
  ⟨_, Utf8.encode?_eq_some_iff.mpr ⟨ht.isSurrogate, rfl⟩⟩

/-! ## One line -/

theorem asciiQuote_of_printable {t : Text} (ht : t.PrintableAscii) :
    asciiQuote t = Surrogate.escape (quote t) := by
  have hpoints : t.flatMap asciiPoint = t.flatMap escapePoint := by
    refine List.flatMap_congr fun c hc => ?_
    rw [asciiPoint, if_pos (Nat.lt_succ_of_le (ht c hc).2)]
  rw [Surrogate.escape_eq_self (isSurrogate_of_printable (printable_quote ht)), asciiQuote, hpoints,
    quote]

theorem isString_asciiQuote {t : Text} (ht : t.PrintableAscii) :
    IsString t.joinPairs (asciiQuote t) := by
  rw [asciiQuote_of_printable ht, escape_quote]
  exact isString_pointTexts t

theorem isName_asciiQuote {b name : Text} (hb : Blank b) (hname : name.PrintableAscii) :
    IsName name.joinPairs (b ++ asciiQuote name) :=
  .before hb (isString_asciiQuote hname)

mutual

theorem derives_compact : ∀ {t : Tree}, t.Printable → Derives (.value t.joinPairs) (compact t)
  | .leaf _, ⟨_, rfl, ht⟩ => .string (isString_asciiQuote ht)
  | .seq [], _ => .emptyArray blank_nil
  | .seq (t :: items), ⟨_, ht, hitems⟩ => by
    have hfirst : Derives (.items [t.joinPairs]) (compact t) :=
      .item (.before blank_nil (derives_compact ht))
    have hnode := Derives.array (derives_compactItems hitems hfirst)
    simp only [compact, List.append_assoc, List.cons_append, List.nil_append] at hnode ⊢
    exact hnode
  | .keyed [], _ => .emptyObject blank_nil
  | .keyed ((name, t) :: fields), ⟨hnames, ht, hfields⟩ => by
    obtain ⟨hname, hothers⟩ := List.forall_mem_cons.mp hnames
    have hfirst : Derives (.fields [(name.joinPairs, t.joinPairs)])
        (asciiQuote name ++ 0x3A :: ([0x20] ++ compact t)) :=
      .field (isName_asciiQuote blank_nil hname.1) (.before blank_space (derives_compact ht))
    obtain ⟨named, hall, hnamed⟩ := derives_compactFields hothers hfields hfirst
    have hnode : Derives (.value (.keyed (Fields.gathered named))) _ := .object hall
    rw [hnamed, Fields.gathered_singleton] at hnode
    simp only [compact, List.append_assoc, List.cons_append, List.nil_append] at hnode ⊢
    exact hnode

theorem derives_compactItems : ∀ {items : List Tree},
    Tree.EveryItem (Tree.Node Scalar.IsPrintable Tree.NamesShort) items →
      ∀ {done : List Tree} {s : Text}, Derives (.items done) s →
        Derives (.items (done ++ Tree.joinItems items)) (s ++ compactItems items)
  | [], _, done, s, h => by
    rw [Tree.joinItems, List.append_nil]
    exact (List.append_nil s).symm ▸ h
  | t :: items, ⟨ht, hitems⟩, done, s, h => by
    have hnext : Derives (.items (done ++ [t.joinPairs])) (s ++ 0x2C :: ([0x20] ++ compact t)) :=
      .nextItem h (.before blank_space (derives_compact ht))
    have hall := derives_compactItems hitems hnext
    rw [Tree.joinItems]
    simp only [compactItems, List.append_assoc, List.cons_append, List.nil_append] at hall ⊢
    exact hall

theorem derives_compactFields : ∀ {fields : List (Text × Tree)},
    Tree.NamesShort (fields.map Prod.fst) →
      Tree.EveryField (Tree.Node Scalar.IsPrintable Tree.NamesShort) fields →
        ∀ {named : List (Text × Tree)} {s : Text}, Derives (.fields named) s →
          ∃ named', Derives (.fields named') (s ++ compactFields fields) ∧
            Fields.gathered named' = Tree.joinFields (Fields.gathered named) fields
  | [], _, _, named, s, h => ⟨named, (List.append_nil s).symm ▸ h, rfl⟩
  | (name, t) :: fields, hnames, ⟨ht, hfields⟩, named, s, h => by
    obtain ⟨hname, hothers⟩ := List.forall_mem_cons.mp hnames
    have hnext : Derives (.fields (named ++ [(name.joinPairs, t.joinPairs)]))
        (s ++ 0x2C :: (([0x20] ++ asciiQuote name) ++ 0x3A :: ([0x20] ++ compact t))) :=
      .nextField h (isName_asciiQuote blank_space hname.1)
        (.before blank_space (derives_compact ht))
    obtain ⟨named', hall, hnamed⟩ := derives_compactFields hothers hfields hnext
    rw [Fields.gathered_concat] at hnamed
    refine ⟨named', ?_, hnamed⟩
    simp only [compactFields, List.append_assoc, List.cons_append, List.nil_append] at hall ⊢
    exact hall

end

theorem joined_of_printable {t : Text} (ht : t.PrintableAscii) : t.Joined :=
  List.Pairwise.isChain (List.pairwise_of_forall_mem_list fun c hc _ _ =>
    CodePoint.apart_of_left (isSurrogate_of_printable ht c hc))

mutual

theorem encodable_of_printable : ∀ {t : Tree}, t.Printable → t.NamesDistinct → t.Encodable
  | .leaf _, ⟨_, rfl, ht⟩, _ => joined_of_printable ht
  | .seq _, ⟨_, hitems⟩, ⟨_, hdistinct⟩ => ⟨trivial, encodableItems_of_printable hitems hdistinct⟩
  | .keyed _, ⟨hnames, hfields⟩, ⟨hnodup, hdistinct⟩ =>
    ⟨⟨hnodup, fun name hname => joined_of_printable (hnames name hname).1⟩,
      encodableFields_of_printable hfields hdistinct⟩

theorem encodableItems_of_printable : ∀ {items : List Tree},
    Tree.EveryItem (Tree.Node Scalar.IsPrintable Tree.NamesShort) items →
      Tree.EveryItem (Tree.Node (fun _ => True) List.Nodup) items →
        Tree.EveryItem (Tree.Node Scalar.Encodable Tree.NamesEncodable) items
  | [], _, _ => trivial
  | _ :: _, ⟨ht, hitems⟩, ⟨hdt, hditems⟩ =>
    ⟨encodable_of_printable ht hdt, encodableItems_of_printable hitems hditems⟩

theorem encodableFields_of_printable : ∀ {fields : List (Text × Tree)},
    Tree.EveryField (Tree.Node Scalar.IsPrintable Tree.NamesShort) fields →
      Tree.EveryField (Tree.Node (fun _ => True) List.Nodup) fields →
        Tree.EveryField (Tree.Node Scalar.Encodable Tree.NamesEncodable) fields
  | [], _, _ => trivial
  | _ :: _, ⟨ht, hfields⟩, ⟨hdt, hdfields⟩ =>
    ⟨encodable_of_printable ht hdt, encodableFields_of_printable hfields hdfields⟩

end

/-- A tree of printable strings is read from its text on one line. -/
theorem read_compact {t : Tree} (ht : t.Printable) (hdistinct : t.NamesDistinct) :
    read (compact t) = .ok t := by
  have hread := read_of_derives (.before blank_nil (derives_compact ht))
  rwa [Tree.joinPairs_eq_self (encodable_of_printable ht hdistinct)] at hread

end FluentFixtures.Json
