import FluentFixtures.Proofs.Json.Grammar
import Mathlib.Data.List.Induction
import Mathlib.Data.List.Nodup

/-!
# Repeated names

The fields that a document gives are set one after the other: a new name comes
last, and the last value of a name takes the place of the one before. What they
make in the end has each name once: `gathered_concat`, `map_fst_gathered`.
-/

namespace FluentFixtures

theorem eraseDups_concat_of_mem {names : List Text} {name : Text} (h : name ∈ names) :
    (names ++ [name]).eraseDups = names.eraseDups := by
  rw [List.eraseDups_append, List.removeAll]
  simp [h]

theorem eraseDups_concat_of_not_mem {names : List Text} {name : Text} (h : name ∉ names) :
    (names ++ [name]).eraseDups = names.eraseDups ++ [name] := by
  have hone : [name].eraseDups = [name] := rfl
  rw [List.eraseDups_append, List.removeAll]
  simp [h, hone]

theorem nodup_eraseDups (names : List Text) : names.eraseDups.Nodup := by
  induction names using List.reverseRecOn with
  | nil => exact List.nodup_nil
  | append_singleton names name ih =>
    by_cases h : name ∈ names
    · rwa [eraseDups_concat_of_mem h]
    · rw [eraseDups_concat_of_not_mem h]
      refine List.nodup_append.mpr ⟨ih, List.pairwise_singleton _ name, ?_⟩
      rintro a ha b hb rfl
      rw [List.mem_singleton.mp hb, List.mem_eraseDups] at ha
      exact h ha

namespace Fields

theorem put_of_not_mem {fields : Fields} {name : Text} (h : name ∉ fields.map Prod.fst)
    (t : Tree) : put fields name t = fields ++ [(name, t)] := by
  induction fields with
  | nil => rfl
  | cons field rest ih =>
    obtain ⟨hfirst, hrest⟩ := not_or.mp (List.mem_cons.not.mp h)
    rw [put, if_neg fun heq => hfirst heq.symm, ih hrest, List.cons_append]

/-- The last value of a name takes the place of the one before. -/
theorem put_filterMap {field? : Text → Option (Text × Tree)} {names : List Text} {name : Text}
    (hfield : ∀ key ∈ names, ∃ t, field? key = some (key, t)) (hnodup : names.Nodup)
    (hname : name ∈ names) (t : Tree) : put (names.filterMap field?) name t =
      names.filterMap (Function.update field? name (some (name, t))) := by
  induction names with
  | nil => cases hname
  | cons key names ih =>
    obtain ⟨⟨value, hvalue⟩, hfield⟩ := List.forall_mem_cons.mp hfield
    obtain ⟨hkey, hnodup⟩ := List.nodup_cons.mp hnodup
    rw [List.filterMap_cons_some hvalue, put]
    by_cases hfirst : key = name
    · subst hfirst
      have hrest : names.filterMap (Function.update field? key (some (key, t))) =
          names.filterMap field? := by
        refine List.filterMap_congr fun other hother => Function.update_of_ne ?_ _ _
        rintro rfl
        exact hkey hother
      rw [if_pos rfl, List.filterMap_cons_some (Function.update_self ..), hrest]
    · have hmem : name ∈ names := (List.mem_cons.mp hname).resolve_left (Ne.symm hfirst)
      have hother : Function.update field? name (some (name, t)) key = some (key, value) := by
        rw [Function.update_of_ne hfirst, hvalue]
      rw [if_neg hfirst, List.filterMap_cons_some hother, ih hfield hnodup hmem]

theorem exists_last? {named : List (Text × Tree)} {name : Text}
    (h : name ∈ named.map Prod.fst) : ∃ t, last? named name = some (name, t) := by
  obtain ⟨field, hfield, rfl⟩ := List.mem_map.mp h
  cases hlast : last? named field.1 with
  | none =>
    have hnone := List.find?_eq_none.mp hlast field (List.mem_reverse.mpr hfield)
    exact absurd (decide_eq_true rfl) hnone
  | some found =>
    have hname : found.1 = field.1 := by simpa using List.find?_some hlast
    exact ⟨found.2, by rw [← hname]⟩

theorem last?_concat (named : List (Text × Tree)) (name : Text) (t : Tree) :
    last? (named ++ [(name, t)]) = Function.update (last? named) name (some (name, t)) := by
  funext key
  rw [last?, List.reverse_append, List.reverse_singleton, List.singleton_append, List.find?_cons]
  by_cases h : key = name
  · subst h
    rw [Function.update_self]
    simp
  · rw [Function.update_of_ne h]
    simp [last?, Ne.symm h]

theorem map_fst_filterMap {field? : Text → Option (Text × Tree)} {names : List Text}
    (hfield : ∀ key ∈ names, ∃ t, field? key = some (key, t)) :
    (names.filterMap field?).map Prod.fst = names := by
  induction names with
  | nil => rfl
  | cons key names ih =>
    obtain ⟨⟨value, hvalue⟩, hfield⟩ := List.forall_mem_cons.mp hfield
    rw [List.filterMap_cons_some hvalue, List.map_cons, ih hfield]

theorem map_fst_gathered (named : List (Text × Tree)) :
    (gathered named).map Prod.fst = (named.map Prod.fst).eraseDups :=
  map_fst_filterMap fun _ hname => exists_last? (List.mem_eraseDups.mp hname)

theorem gathered_concat (named : List (Text × Tree)) (name : Text) (t : Tree) :
    gathered (named ++ [(name, t)]) = put (gathered named) name t := by
  have hlast : ∀ key ∈ (named.map Prod.fst).eraseDups, ∃ t, last? named key = some (key, t) :=
    fun key hkey => exists_last? (List.mem_eraseDups.mp hkey)
  rw [gathered, gathered, last?_concat, List.map_append, List.map_singleton]
  by_cases h : name ∈ named.map Prod.fst
  · rw [eraseDups_concat_of_mem h]
    exact (put_filterMap hlast (nodup_eraseDups _) (List.mem_eraseDups.mpr h) t).symm
  · have hbefore : (named.map Prod.fst).eraseDups.filterMap
        (Function.update (last? named) name (some (name, t))) =
          (named.map Prod.fst).eraseDups.filterMap (last? named) := by
      refine List.filterMap_congr fun key hkey => Function.update_of_ne ?_ _ _
      rintro rfl
      exact h (List.mem_eraseDups.mp hkey)
    have hnone : name ∉ (gathered named).map Prod.fst := by
      rwa [map_fst_gathered, List.mem_eraseDups]
    rw [gathered] at hnone
    rw [eraseDups_concat_of_not_mem h, List.filterMap_append, hbefore,
      List.filterMap_cons_some (Function.update_self ..), List.filterMap_nil,
      put_of_not_mem hnone]

theorem gathered_singleton (name : Text) (t : Tree) : gathered [(name, t)] = [(name, t)] :=
  gathered_concat [] name t

theorem mem_of_mem_gathered {named : List (Text × Tree)} {field : Text × Tree}
    (h : field ∈ gathered named) : field ∈ named := by
  obtain ⟨name, -, hfield⟩ := List.mem_filterMap.mp h
  exact List.mem_reverse.mp (List.mem_of_find?_eq_some hfield)

end Fields

end FluentFixtures
