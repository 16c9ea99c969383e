import FluentFixtures.Proofs.Json.Documents
import FluentFixtures.Proofs.Json.Layout
import FluentFixtures.Proofs.Json.Number
import FluentFixtures.Proofs.Json.Pairs

/-!
# Reading undoes writing

The grammar derives the text of a tree from the tree with its surrogate pairs
joined: `derives_render`. So every document that is written is read as its tree
with the pairs joined, `read_render`, which is the tree itself if a document can
hold it: `read_write`.
-/

namespace FluentFixtures.Json

/-! ## Leaves -/

/-- Numbers have no surrogate that is spelled out. -/
theorem escape_integer (n : Int) : Surrogate.escape (Text.integer n) = (Numeral.ofInt n).text := by
  rw [← Numeral.text_ofInt]
  exact Surrogate.escape_eq_self (Numeral.isSurrogate_text (Numeral.canonical_ofInt n))

theorem escape_written (negative : Bool) (rank : Fin 0x7FF0000000000000) :
    Surrogate.escape (Double.finite negative rank).written =
      (Numeral.ofDouble negative rank).text := by
  rw [← Numeral.text_ofDouble]
  exact Surrogate.escape_eq_self
    (Numeral.isSurrogate_text (Numeral.canonical_ofDouble negative rank))

/-- The text of a leaf whose number has one. -/
theorem derives_scalarText {value : Scalar} (h : NumberFits value) :
    Derives (.value (.leaf value.joinPairs)) (Surrogate.escape (scalarText value)) := by
  cases value with
  | null => exact .word .null
  | bool b =>
    cases b with
    | true => exact .word .true
    | false => exact .word .false
  | int n =>
    have hlimit : isTooLong n = false := by
      by_contra hlong
      rw [NumberFits, scalarError?, if_pos (Bool.not_eq_false _ ▸ hlong)] at h
      cases h
    rw [scalarText, escape_integer]
    exact .number (Numeral.spelled_text (Numeral.canonical_ofInt n))
      (Numeral.value_eq_ok_iff.mp (Numeral.value_ofInt hlimit))
  | double d =>
    cases d with
    | finite negative rank =>
      rw [scalarText, doubleText, escape_written]
      exact .number (Numeral.spelled_text (Numeral.canonical_ofDouble negative rank))
        (Numeral.value_eq_ok_iff.mp (Numeral.value_ofDouble negative rank))
    | infinite negative => cases h
    | nan => cases h
  | str s =>
    rw [scalarText, escape_quote]
    exact .string (isString_pointTexts s)

/-! ## Containers -/

theorem isName_quote (indent depth : Nat) (name : Text) :
    IsName name.joinPairs (newline indent depth ++ Surrogate.escape (quote name)) := by
  rw [escape_quote]
  exact .before (blank_newline indent depth) (isString_pointTexts name)

theorem blank_space : Blank [0x20] := List.forall_mem_singleton.mpr (.inl rfl)

variable {indent : Nat}

mutual

theorem derives_render : ∀ {t : Tree}, NumbersFit t → ∀ depth : Nat,
    Derives (.value t.joinPairs) (Surrogate.escape (render indent depth t))
  | .leaf _, hfit, _ => derives_scalarText hfit
  | .seq [], _, _ => .emptyArray blank_nil
  | .seq (t :: items), hfit, depth => by
    obtain ⟨-, ht, hitems⟩ := hfit
    have hfirst : Derives (.items [t.joinPairs]) (newline indent (depth + 1) ++
        Surrogate.escape (render indent (depth + 1) t)) :=
      .item (.before (blank_newline indent (depth + 1)) (derives_render ht (depth + 1)))
    have hall := derives_renderItems hitems (depth + 1) hfirst
    rw [escape_render_seq]
    exact .array (hall.append_items (blank_newline indent depth))
  | .keyed [], _, _ => .emptyObject blank_nil
  | .keyed ((name, t) :: fields), hfit, depth => by
    obtain ⟨-, ht, hfields⟩ := hfit
    have hfirst : Derives (.fields [(name.joinPairs, t.joinPairs)])
        (newline indent (depth + 1) ++ Surrogate.escape (quote name) ++ 0x3A :: ([0x20] ++
          Surrogate.escape (render indent (depth + 1) t))) :=
      .field (isName_quote indent (depth + 1) name)
        (.before blank_space (derives_render ht (depth + 1)))
    obtain ⟨named, hall, hnamed⟩ := derives_renderFields hfields (depth + 1) hfirst
    have hnode : Derives (.value (.keyed (Fields.gathered named))) _ :=
      .object (hall.append_fields (blank_newline indent depth))
    rw [hnamed, Fields.gathered_singleton] at hnode
    rw [escape_render_keyed]
    simp only [List.append_assoc, List.cons_append] at hnode ⊢
    exact hnode

/-- The items after the first add their texts. -/
theorem derives_renderItems : ∀ {items : List Tree},
    Tree.EveryItem (Tree.Node NumberFits fun _ => True) items →
      ∀ (depth : Nat) {done : List Tree} {s : Text}, Derives (.items done) s →
        Derives (.items (done ++ Tree.joinItems items))
          (s ++ Surrogate.escape (renderItems indent depth items))
  | [], _, _, done, s, h => by
    rw [Tree.joinItems, List.append_nil]
    exact (List.append_nil s).symm ▸ h
  | t :: items, hfit, depth, done, s, h => by
    have hnext : Derives (.items (done ++ [t.joinPairs])) (s ++ 0x2C :: (newline indent depth ++
        Surrogate.escape (render indent depth t))) :=
      .nextItem h (.before (blank_newline indent depth) (derives_render hfit.1 depth))
    have hall := derives_renderItems hfit.2 depth hnext
    rw [escape_renderItems, Tree.joinItems]
    simp only [List.append_assoc, List.cons_append, List.nil_append] at hall ⊢
    exact hall

theorem derives_renderFields : ∀ {fields : List (Text × Tree)},
    Tree.EveryField (Tree.Node NumberFits fun _ => True) fields →
      ∀ (depth : Nat) {named : List (Text × Tree)} {s : Text}, Derives (.fields named) s →
        ∃ named',
          Derives (.fields named') (s ++ Surrogate.escape (renderFields indent depth fields)) ∧
            Fields.gathered named' = Tree.joinFields (Fields.gathered named) fields
  | [], _, _, named, s, h => ⟨named, (List.append_nil s).symm ▸ h, rfl⟩
  | (name, t) :: fields, hfit, depth, named, s, h => by
    have hnext : Derives (.fields (named ++ [(name.joinPairs, t.joinPairs)]))
        (s ++ 0x2C :: (newline indent depth ++ Surrogate.escape (quote name) ++ 0x3A :: ([0x20] ++
          Surrogate.escape (render indent depth t)))) :=
      .nextField h (isName_quote indent depth name)
        (.before blank_space (derives_render hfit.1 depth))
    obtain ⟨named', hall, hnamed⟩ := derives_renderFields hfit.2 depth hnext
    rw [Fields.gathered_concat] at hnamed
    refine ⟨named', ?_, hnamed⟩
    rw [escape_renderFields]
    simp only [List.append_assoc, List.cons_append] at hall ⊢
    exact hall

end

/-! ## Documents -/

/-- The text of a tree is read as the tree with its pairs joined. -/
theorem read_render {t : Tree} (hfit : NumbersFit t) :
    read (Surrogate.escape (render indent 0 t)) = .ok t.joinPairs :=
  read_of_derives (.before blank_nil (derives_render hfit 0))

theorem write_eq_ok_iff {indent : Int} {t : Tree} {document : Text} :
    write indent t = .ok document ↔
      error? indent t = none ∧ Surrogate.escape (render indent.toNat 0 t) = document := by
  rw [write]
  cases error? indent t <;> simp

/-- A document that is written is read. -/
theorem read_of_write {indent : Int} {t : Tree} {document : Text}
    (h : write indent t = .ok document) : read document = .ok t.joinPairs := by
  obtain ⟨herror, rfl⟩ := write_eq_ok_iff.mp h
  refine read_render ?_
  rw [← numberError?_eq_none_iff]
  unfold error? at herror
  split at herror
  · rfl
  · exact (Option.or_eq_none_iff.mp herror).2

theorem read_write {indent : Int} {t : Tree} (h : t.Storable) (hindents : Indents indent t) :
    ∃ document, write indent t = .ok document ∧ read document = .ok t := by
  have herror := (error?_eq_none_iff h.encodable).mpr ⟨hindents, h.finite⟩
  have hwrite := write_eq_ok_iff.mpr ⟨herror, rfl⟩
  have hread := read_of_write hwrite
  rw [Tree.joinPairs_eq_self h.encodable] at hread
  exact ⟨_, hwrite, hread⟩

end FluentFixtures.Json
