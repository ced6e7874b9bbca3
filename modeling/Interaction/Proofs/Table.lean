import Interaction.Table
import Mathlib.Data.List.Induction
import Mathlib.Data.List.Nodup
import Mathlib.Data.List.Sort

/-!
This module contains what is found in a table after insertions.
-/

namespace Interaction

namespace Table

variable {α : Type} {key key' k : String} {value v : α} {entries : List (String × α)}

theorem lookup_cons_eq :
    ((k, v) :: entries).lookup key = if key = k then some v else entries.lookup key := by
  rw [List.lookup_cons]
  by_cases same : key = k
  . simp [same]
  . have different : (key == k) = false := by simpa using same
    simp [same, different]

theorem lookup_insertEntry :
    (insertEntry key value entries).lookup key' =
      if key' = key then some value else entries.lookup key' := by
  induction entries with
  | nil => exact lookup_cons_eq
  | cons head rest ih =>
    obtain ⟨k, v⟩ := head
    simp only [insertEntry]
    split
    . exact lookup_cons_eq
    . split
      . next same =>
        subst same
        by_cases found : key' = key <;> simp [lookup_cons_eq, found]
      . next other =>
        rw [lookup_cons_eq, lookup_cons_eq, ih]
        by_cases found : key' = key
        . simp [found, other]
        . simp [found]

theorem get?_insert {t : Table α} :
    (t.insert key value).get? key' = if key' = key then some value else t.get? key' :=
  lookup_insertEntry

theorem contains_iff {t : Table α} :
    t.contains key = true ↔ ∃ value, t.get? key = some value := by
  unfold contains
  rw [Option.isSome_iff_exists]

theorem get?_ofList : (ofList entries).get? key = entries.reverse.lookup key := by
  unfold ofList
  induction entries using List.reverseRecOn with
  | nil => rfl
  | append_singleton entries last ih =>
    rw [List.foldl_append, List.foldl_cons, List.foldl_nil, get?_insert, ih,
      List.reverse_append]
    exact lookup_cons_eq.symm

theorem lookup_eq_some_iff_mem (nodup : (entries.map (·.1)).Nodup) :
    entries.lookup key = some value ↔ (key, value) ∈ entries := by
  induction entries with
  | nil => simp
  | cons head rest ih =>
    obtain ⟨k, v⟩ := head
    rw [List.map_cons, List.nodup_cons] at nodup
    rw [lookup_cons_eq, List.mem_cons, Prod.mk.injEq]
    by_cases same : key = k
    . subst same
      have absent : (key, value) ∉ rest := by
        intro mem
        exact nodup.1 (List.mem_map.2 ⟨_, mem, rfl⟩)
      simp [absent, eq_comm]
    . rw [if_neg same, ih nodup.2]
      simp [same]

theorem get?_ofList_eq_some_iff (nodup : (entries.map (·.1)).Nodup) :
    (ofList entries).get? key = some value ↔ (key, value) ∈ entries := by
  have reversed : (entries.reverse.map (·.1)).Nodup := by
    rw [List.map_reverse]
    exact List.nodup_reverse.2 nodup
  rw [get?_ofList, lookup_eq_some_iff_mem reversed, List.mem_reverse]

theorem nodup_keys (t : Table α) : (t.entries.map (·.1)).Nodup := by
  rw [List.nodup_iff_pairwise_ne, List.pairwise_map]
  exact t.ascending.imp fun lt => String.ne_of_lt lt

theorem get?_eq_some_iff {t : Table α} : t.get? key = some value ↔ (key, value) ∈ t.entries :=
  lookup_eq_some_iff_mem t.nodup_keys

theorem eq_of_get? {s t : Table α}
    (h : ∀ key value, s.get? key = some value ↔ t.get? key = some value) : s = t := by
  have : Std.Irrefl fun a b : String × α => a.1 < b.1 := ⟨fun _ => String.lt_irrefl _⟩
  have : Std.Antisymm fun a b : String × α => a.1 < b.1 :=
    ⟨fun a b lt gt => absurd gt (String.lt_asymm lt)⟩
  apply Table.ext
  apply s.ascending.eq_of_mem_iff t.ascending
  rintro ⟨key, value⟩
  rw [← get?_eq_some_iff, ← get?_eq_some_iff]
  exact h key value

theorem ofList_entries (t : Table α) : ofList t.entries = t := by
  apply eq_of_get?
  intro key value
  rw [get?_ofList_eq_some_iff t.nodup_keys, get?_eq_some_iff]

theorem entries_ofList (entries : List (String × α)) :
    (ofList entries).entries =
      entries.foldl (fun sorted entry => insertEntry entry.1 entry.2 sorted) [] :=
  (List.foldl_hom Table.entries fun _ _ => rfl).symm

end Table

end Interaction
