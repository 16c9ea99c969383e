import FluentFixtures.Proofs.Json.Documents
import FluentFixtures.Proofs.Json.Quoted
import FluentFixtures.Proofs.Json.Storable

/-!
# What is read is encodable

What the grammar derives a text without surrogates from is encodable: strings are
joined, integers are not too long and names are not repeated. So the tree of a
document without surrogates is encodable: `encodable_read`.
-/

namespace FluentFixtures.Json

theorem Word.encodable {v : Scalar} {s : Text} (h : Word v s) : v.Encodable := by
  cases h <;> trivial

theorem Numeral.Denotes.encodable {n : Numeral} {v : Scalar} (h : n.Denotes v)
    (hn : n.whole.Digits) : v.Encodable := by
  have hvalue := Text.decimalValue_lt hn
  cases h with
  | positive _ hlength _ => exact isTooLong_of_lt hlength (by rwa [Int.natAbs_natCast])
  | negative _ hlength _ =>
    exact isTooLong_of_lt hlength (by rwa [Int.natAbs_neg, Int.natAbs_natCast])
  | double | overflow => trivial

theorem IsName.joined {name s : Text} (h : IsName name s) (hs : ∀ c ∈ s, c.isSurrogate = false) :
    name.Joined := by
  obtain ⟨-, hname, -⟩ := h
  have hbefore := (List.forall_mem_append.mp hs).1
  exact hname.joined (List.forall_mem_append.mp hbefore).2

theorem encodable_seq {items : List Tree} :
    Tree.Encodable (.seq items) ↔ ∀ t ∈ items, t.Encodable :=
  (and_iff_right trivial).trans Tree.everyItem_iff

theorem encodable_keyed {fields : Fields} : Tree.Encodable (.keyed fields) ↔
    Tree.NamesEncodable (fields.map Prod.fst) ∧ ∀ field ∈ fields, field.2.Encodable :=
  and_congr_right fun _ => Tree.everyField_iff

/-- Whether all that a phrase denotes is encodable. -/
def Phrase.Encodable : Phrase → Prop
  | .value t | .element t => t.Encodable
  | .items trees => ∀ t ∈ trees, t.Encodable
  | .fields named => ∀ field ∈ named, field.1.Joined ∧ field.2.Encodable

/-- Fields make an encodable node, which has each name once. -/
theorem encodable_gathered {named : List (Text × Tree)}
    (h : ∀ field ∈ named, field.1.Joined ∧ field.2.Encodable) :
    Tree.Encodable (.keyed (Fields.gathered named)) := by
  refine encodable_keyed.mpr ⟨⟨?_, ?_⟩, fun field hfield => ?_⟩
  · rw [Fields.map_fst_gathered]
    exact nodup_eraseDups _
  · rw [Fields.map_fst_gathered]
    intro name hname
    obtain ⟨field, hfield, rfl⟩ := List.mem_map.mp (List.mem_eraseDups.mp hname)
    exact (h field hfield).1
  · exact (h field (Fields.mem_of_mem_gathered hfield)).2

theorem Derives.encodable {phrase : Phrase} {s : Text} (h : Derives phrase s)
    (hs : ∀ c ∈ s, c.isSurrogate = false) : phrase.Encodable := by
  induction h with
  | word hword => exact hword.encodable
  | number hn hv => exact hv.encodable hn.wholeDigits
  | string hstring => exact hstring.joined hs
  | emptyArray => exact encodable_seq.mpr (List.forall_mem_nil _)
  | array _ ih =>
    have hinner := (List.forall_mem_append.mp (List.forall_mem_cons.mp hs).2).1
    exact encodable_seq.mpr (ih hinner)
  | emptyObject => exact encodable_gathered (List.forall_mem_nil _)
  | object _ ih =>
    have hinner := (List.forall_mem_append.mp (List.forall_mem_cons.mp hs).2).1
    exact encodable_gathered (ih hinner)
  | element _ _ _ ih =>
    have hbefore := (List.forall_mem_append.mp hs).1
    exact ih (List.forall_mem_append.mp hbefore).2
  | item _ ih => exact List.forall_mem_singleton.mpr (ih hs)
  | nextItem _ _ ih iht =>
    obtain ⟨hitems, hmore⟩ := List.forall_mem_append.mp hs
    refine List.forall_mem_append.mpr ⟨ih hitems, List.forall_mem_singleton.mpr ?_⟩
    exact iht (List.forall_mem_cons.mp hmore).2
  | field hname _ ih =>
    obtain ⟨hbegins, hmore⟩ := List.forall_mem_append.mp hs
    refine List.forall_mem_singleton.mpr ⟨hname.joined hbegins, ?_⟩
    exact ih (List.forall_mem_cons.mp hmore).2
  | nextField _ hname _ ih iht =>
    obtain ⟨hfields, hmore⟩ := List.forall_mem_append.mp hs
    obtain ⟨hbegins, hvalue⟩ := List.forall_mem_append.mp (List.forall_mem_cons.mp hmore).2
    refine List.forall_mem_append.mpr ⟨ih hfields, List.forall_mem_singleton.mpr ?_⟩
    exact ⟨hname.joined hbegins, iht (List.forall_mem_cons.mp hvalue).2⟩

theorem encodable_read {document : Text} (hdocument : ∀ c ∈ document, c.isSurrogate = false)
    {tree : Tree} (h : read document = .ok tree) : tree.Encodable :=
  (derives_of_read h).encodable hdocument

end FluentFixtures.Json
