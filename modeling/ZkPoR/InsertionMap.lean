import Mathlib.Data.List.Nodup

/-! # Maps that keep the order of insertion

A map as a list of entries with distinct keys.  A write of a stored key replaces the
value in its place, and a write of a new key goes to the end, so the first key is the
oldest one.  Reads name the operations by what they do to each key, and `size` counts
the keys.
-/
namespace InsertionMap

/-- Entries in the order in which their keys arrived. -/
structure OrderedMap (K V : Type) where
  entries : List (K × V)
  nodup : (entries.map Prod.fst).Nodup

namespace OrderedMap
variable {K V : Type}

/-- The map that holds nothing. -/
def empty : OrderedMap K V := ⟨[], List.nodup_nil⟩

/-- The keys, the oldest first. -/
def keys (m : OrderedMap K V) : List K := m.entries.map Prod.fst

/-- The count of the keys. -/
def size (m : OrderedMap K V) : Nat := m.entries.length

@[simp] theorem length_keys (m : OrderedMap K V) : m.keys.length = m.size := List.length_map _

variable [DecidableEq K]

/-- The value under a key. -/
def get (m : OrderedMap K V) (k : K) : Option V :=
  (m.entries.find? fun e => e.1 = k).map Prod.snd

/-- A list of entries with another value under one key. -/
def replace (k : K) (v : V) (entries : List (K × V)) : List (K × V) :=
  entries.map fun e => if e.1 = k then (k, v) else e

theorem keys_replace (k : K) (v : V) (entries : List (K × V)) :
    (replace k v entries).map Prod.fst = entries.map Prod.fst := by
  rw [replace, List.map_map]
  refine List.map_congr_left fun e _ => ?_
  rw [Function.comp_apply]
  split
  · rename_i heq
    exact heq.symm
  · rfl

/-- Writes a value: in its place for a stored key, at the end for a new one. -/
def set (m : OrderedMap K V) (k : K) (v : V) : OrderedMap K V :=
  if h : k ∈ m.keys then
    ⟨replace k v m.entries, by rw [keys_replace]; exact m.nodup⟩
  else
    ⟨m.entries ++ [(k, v)], by
      rw [List.map_append, List.nodup_append]
      refine ⟨m.nodup, List.nodup_singleton _, fun x hx y hy => ?_⟩
      rw [List.mem_singleton.mp hy]
      rintro rfl
      exact h hx⟩

/-- Drops a key. -/
def delete (m : OrderedMap K V) (k : K) : OrderedMap K V :=
  ⟨m.entries.filter fun e => e.1 ≠ k, m.nodup.sublist (List.filter_sublist.map _)⟩

variable (m : OrderedMap K V) {k k' : K}

@[simp] theorem get_empty : (empty : OrderedMap K V).get k = none := rfl

/-- The keys are those under which the map holds a value. -/
theorem isSome_get : (m.get k).isSome ↔ k ∈ m.keys := by
  rw [get, Option.isSome_map, List.find?_isSome, keys, List.mem_map]
  simp

theorem mem_keys_of_get {v : V} (h : m.get k = some v) : k ∈ m.keys := by
  rw [← isSome_get, h]
  rfl

theorem mem_entries_of_get {v : V} (h : m.get k = some v) : (k, v) ∈ m.entries := by
  obtain ⟨e, hfind, rfl⟩ := Option.map_eq_some_iff.mp h
  have hkey := List.find?_some hfind
  rw [decide_eq_true_eq] at hkey
  subst hkey
  exact List.mem_of_find?_eq_some hfind

/-- Distinct values name their keys. -/
theorem get_injective {v : V} (hnodup : (m.entries.map Prod.snd).Nodup) (h : m.get k = some v)
    (h' : m.get k' = some v) : k = k' :=
  congrArg Prod.fst (List.inj_on_of_nodup_map hnodup (m.mem_entries_of_get h)
    (m.mem_entries_of_get h') rfl)

theorem find_replace_of_ne {v : V} {entries : List (K × V)} (h : k' ≠ k) :
    (replace k v entries).find? (fun e => e.1 = k') = entries.find? fun e => e.1 = k' := by
  induction entries with
  | nil => rfl
  | cons e entries ih =>
    rw [replace, List.map_cons, ← replace, List.find?_cons, List.find?_cons, ih]
    by_cases he : e.1 = k
    · rw [if_pos he]
      simp [he, h.symm]
    · rw [if_neg he]

theorem find_replace_self {v : V} {entries : List (K × V)} (h : k ∈ entries.map Prod.fst) :
    (replace k v entries).find? (fun e => e.1 = k) = some (k, v) := by
  induction entries with
  | nil => cases h
  | cons e entries ih =>
    rw [replace, List.map_cons, ← replace, List.find?_cons]
    by_cases he : e.1 = k
    · simp [he]
    · rw [if_neg he]
      rw [List.map_cons, List.mem_cons] at h
      simp only [he, decide_false]
      exact ih (h.resolve_left (Ne.symm he))

@[simp] theorem get_set_self (v : V) : (m.set k v).get k = some v := by
  rw [set]
  split
  · rename_i h
    rw [get, find_replace_self h, Option.map_some]
  · rename_i h
    have hnone : m.entries.find? (fun e => e.1 = k) = none := by
      rw [List.find?_eq_none]
      intro e he heq
      exact h (List.mem_map.mpr ⟨e, he, by simpa using heq⟩)
    simp [get, List.find?_append, hnone]

theorem get_set_of_ne (v : V) (h : k' ≠ k) : (m.set k v).get k' = m.get k' := by
  rw [set]
  split
  · rw [get, get, find_replace_of_ne h]
  · simp [get, List.find?_append, h.symm]

@[simp] theorem get_delete_self : (m.delete k).get k = none := by
  rw [get, delete, Option.map_eq_none_iff, List.find?_eq_none]
  intro e he
  simpa using (List.mem_filter.mp he).2

theorem get_delete_of_ne (h : k' ≠ k) : (m.delete k).get k' = m.get k' := by
  have hfilter : ∀ entries : List (K × V), (entries.filter fun e => e.1 ≠ k).find?
      (fun e => e.1 = k') = entries.find? fun e => e.1 = k' := by
    intro entries
    induction entries with
    | nil => rfl
    | cons e entries ih =>
      by_cases he : e.1 = k
      · rw [List.filter_cons_of_neg (by simpa using he), ih, List.find?_cons]
        simp [he, h.symm]
      · rw [List.filter_cons_of_pos (by simpa using he), List.find?_cons, List.find?_cons, ih]
  rw [get, get, delete, hfilter]

/-- A write of a stored key keeps the count. -/
theorem size_set_of_mem (v : V) (h : k ∈ m.keys) : (m.set k v).size = m.size := by
  rw [set, dif_pos h]
  exact List.length_map _

theorem size_set_le (v : V) : (m.set k v).size ≤ m.size + 1 := by
  rw [set]
  split
  · exact Nat.le_succ_of_le (Nat.le_of_eq (List.length_map _))
  · exact Nat.le_of_eq List.length_append

theorem size_delete_le : (m.delete k).size ≤ m.size := List.length_filter_le _ _

/-- The drop of a stored key lowers the count. -/
theorem size_delete_lt (h : k ∈ m.keys) : (m.delete k).size < m.size := by
  obtain ⟨e, he, rfl⟩ := List.mem_map.mp h
  exact List.length_filter_lt_length_iff_exists.mpr ⟨e, he, by simp⟩

end OrderedMap
end InsertionMap
