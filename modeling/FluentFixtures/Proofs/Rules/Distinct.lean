import FluentFixtures.Proofs.Rules.Key

/-!
# Keys without repetition

Setting a key that is there keeps its place, so no two keys of a map that is
made from entries are equal: `distinct_ofList`. Where no two keys are equal, a
look-up finds the one entry there is, whatever the order of the entries.
-/

namespace FluentFixtures

theorem Scalar.equals_self (a : Scalar) : a.Equals a := same_iff_equals.mp (same_self a)

namespace Key

theorem equals_self (a : Key) : a.Equals a := same_iff_equals.mp (same_self a)

theorem Equals.trans {a b c : Key} (hab : a.Equals b) (hbc : b.Equals c) : a.Equals c :=
  same_iff_equals.mp (same_trans (same_iff_equals.mpr hab) (same_iff_equals.mpr hbc))

theorem same_eq_false_iff {a b : Key} : same a b = false ↔ ¬ a.Equals b := by
  rw [← same_iff_equals, Bool.not_eq_true]

end Key

/-! ## Sets -/

namespace KeySet

variable {key : Key} {keys : KeySet} {parts : List Key}

/-- A set has the members that are put in, each as it was spelled first. -/
theorem mem_of_mem_foldl_insert (h : key ∈ parts.foldl insert keys) : key ∈ keys ∨ key ∈ parts := by
  induction parts generalizing keys with
  | nil => exact .inl h
  | cons part parts ih =>
    rcases ih h with hkeys | hparts
    · unfold insert at hkeys
      split at hkeys
      · exact .inl hkeys
      · rcases List.mem_append.mp hkeys with hkeys | hpart
        · exact .inl hkeys
        · exact .inr (List.mem_cons.mpr (.inl (List.mem_singleton.mp hpart)))
    · exact .inr (List.mem_cons_of_mem part hparts)

theorem mem_of_mem_ofList (h : key ∈ ofList parts) : key ∈ parts :=
  (mem_of_mem_foldl_insert h).resolve_left List.not_mem_nil

theorem member_insert {part : Key} :
    member key (insert keys part) = true ↔ member key keys = true ∨ key.Equals part := by
  unfold insert
  split
  · next hpart =>
    refine ⟨.inl, fun h => h.elim id fun hkey => ?_⟩
    obtain ⟨m, hm, hequals⟩ := member_iff.mp hpart
    exact member_iff.mpr ⟨m, hm, hkey.trans hequals⟩
  · simp only [member_iff, List.mem_append, List.mem_singleton, or_and_right, exists_or,
      exists_eq_left]

theorem member_foldl_insert : member key (parts.foldl insert keys) = true ↔
    member key keys = true ∨ ∃ part ∈ parts, key.Equals part := by
  induction parts generalizing keys with
  | nil => simp
  | cons part parts ih =>
    rw [List.foldl_cons, ih, member_insert]
    simp only [List.mem_cons, or_and_right, exists_or, exists_eq_left, or_assoc]

/-- A key is in a set if it equals one of those put in. -/
theorem member_ofList : member key (ofList parts) = true ↔ ∃ part ∈ parts, key.Equals part := by
  rw [ofList, member_foldl_insert]
  simp [member]

end KeySet

/-! ## Maps -/

namespace KeyMap

variable {α : Type} {key : Key} {value : α} {map map' : KeyMap α}

def Distinct (map : KeyMap α) : Prop := map.Pairwise fun a b => ¬ a.1.Equals b.1

/-- What is in a map after a key is set was there, or has the value set, under the key or under the
spelling of it that was there. -/
theorem mem_of_mem_put {entry : Key × α} (h : entry ∈ put map key value) :
    entry ∈ map ∨ entry.2 = value ∧ (entry.1 = key ∨ ∃ value', (entry.1, value') ∈ map) := by
  induction map with
  | nil =>
    obtain rfl := List.mem_singleton.mp h
    exact .inr ⟨rfl, .inl rfl⟩
  | cons first rest ih =>
    unfold put at h
    split at h
    · rcases List.mem_cons.mp h with rfl | h
      · exact .inr ⟨rfl, .inr ⟨first.2, List.mem_cons_self⟩⟩
      · exact .inl (List.mem_cons_of_mem first h)
    · rcases List.mem_cons.mp h with rfl | h
      · exact .inl List.mem_cons_self
      · rcases ih h with hmem | ⟨hvalue, hkey⟩
        · exact .inl (List.mem_cons_of_mem first hmem)
        · exact .inr ⟨hvalue, hkey.imp_right fun ⟨value', hmem⟩ =>
            ⟨value', List.mem_cons_of_mem first hmem⟩⟩

theorem Distinct.put (h : map.Distinct) : (map.put key value).Distinct := by
  induction map with
  | nil => exact List.pairwise_singleton _ _
  | cons first rest ih =>
    obtain ⟨hfirst, hrest⟩ := List.pairwise_cons.mp h
    unfold KeyMap.put
    split
    · exact List.pairwise_cons.mpr ⟨hfirst, hrest⟩
    · next hkey =>
      refine List.pairwise_cons.mpr ⟨fun entry hentry => ?_, ih hrest⟩
      rcases mem_of_mem_put hentry with hmem | ⟨-, hnew | ⟨value', hmem⟩⟩
      · exact hfirst entry hmem
      · intro hequals
        rw [hnew] at hequals
        exact hkey (Key.same_iff_equals.mpr hequals.symm)
      · exact hfirst (entry.1, value') hmem

theorem Distinct.foldl_put {entries : List (Key × α)} (h : map.Distinct) :
    (entries.foldl (fun map entry => KeyMap.put map entry.1 entry.2) map).Distinct := by
  induction entries generalizing map with
  | nil => exact h
  | cons entry entries ih => exact ih h.put

theorem distinct_ofList (entries : List (Key × α)) : (ofList entries).Distinct :=
  Distinct.foldl_put List.Pairwise.nil

/-- A key that is new comes last. -/
theorem put_of_new (h : ∀ entry ∈ map, ¬ key.Equals entry.1) :
    put map key value = map ++ [(key, value)] := by
  induction map with
  | nil => rfl
  | cons first rest ih =>
    have hfirst := Key.same_eq_false_iff.mpr (h first List.mem_cons_self)
    rw [put, hfirst, if_neg Bool.false_ne_true, List.cons_append,
      ih fun entry hentry => h entry (List.mem_cons_of_mem first hentry)]

/-- Entries whose keys all differ make up the map that they are. -/
theorem ofList_eq_self (h : map.Distinct) : ofList map = map := by
  have hfold (done rest : List (Key × α)) (h : Distinct (done ++ rest)) :
      rest.foldl (fun map entry => put map entry.1 entry.2) done = done ++ rest := by
    induction rest generalizing done with
    | nil => simp
    | cons entry rest ih =>
      have hnew : ∀ other ∈ done, ¬ entry.1.Equals other.1 := fun other hother hequals =>
        (List.pairwise_append.mp h).2.2 other hother entry List.mem_cons_self hequals.symm
      have hsplit : done ++ entry :: rest = done ++ [entry] ++ rest := by simp
      rw [List.foldl_cons, put_of_new hnew, hsplit]
      exact ih _ (hsplit ▸ h)
  exact hfold [] map h

/-- Where no two keys are equal, a key has the value of its one entry. -/
theorem Distinct.get?_eq_some_iff (h : map.Distinct) :
    map.get? key = some value ↔ ∃ spelled, (spelled, value) ∈ map ∧ key.Equals spelled := by
  rw [KeyMap.get?_eq_some_iff]
  constructor
  · rintro ⟨before, spelled, after, rfl, hequals, -⟩
    exact ⟨spelled, by simp, hequals⟩
  · rintro ⟨spelled, hmem, hequals⟩
    obtain ⟨before, after, rfl⟩ := List.append_of_mem hmem
    refine ⟨before, spelled, after, rfl, hequals, fun earlier hearlier hsame => ?_⟩
    exact (List.pairwise_append.mp h).2.2 earlier hearlier _ List.mem_cons_self
      (hsame.symm.trans hequals)

theorem Distinct.perm (h : map.Distinct) (hperm : map.Perm map') : map'.Distinct :=
  List.Pairwise.perm h hperm fun hne hequals => hne hequals.symm

theorem Distinct.get?_perm (h : map.Distinct) (hperm : map.Perm map') :
    map'.get? key = map.get? key := by
  refine Option.ext fun value => ?_
  rw [(h.perm hperm).get?_eq_some_iff, h.get?_eq_some_iff]
  simp only [hperm.mem_iff]

end KeyMap

end FluentFixtures
