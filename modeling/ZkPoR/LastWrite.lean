import Mathlib.Data.List.Induction
import ZkPoR.BoundedLoop
import ZkPoR.InsertionMap

/-! # Maps that are filled from a list

A loop writes one value for each element of a list, under the key of the element, and a
later element writes over an earlier one with its key.  So the map holds, under each key,
the value of the last element with that key (`get_fill`).  The value of an element comes
from a step that may fail, and then the whole loop fails.
-/
namespace LastWrite
open BoundedLoop InsertionMap

variable {α K V ε : Type} [DecidableEq K] (key : α → K)

/-- The last element with a key. -/
def lastUnder (l : List α) (k : K) : Option α := l.reverse.find? fun x => key x = k

@[simp] theorem lastUnder_nil (k : K) : lastUnder key [] k = none := rfl

theorem lastUnder_concat (l : List α) (x : α) (k : K) :
    lastUnder key (l ++ [x]) k = if key x = k then some x else lastUnder key l k := by
  rw [lastUnder, List.reverse_append, List.reverse_singleton, List.singleton_append,
    List.find?_cons]
  by_cases h : key x = k
  · simp [h]
  · simp [h, lastUnder]

variable {key} {l : List α} {k : K} {x : α}

theorem mem_of_lastUnder (h : lastUnder key l k = some x) : x ∈ l :=
  List.mem_reverse.mp (List.mem_of_find?_eq_some h)

theorem key_of_lastUnder (h : lastUnder key l k = some x) : key x = k := by
  have hkey := List.find?_some h
  rwa [decide_eq_true_eq] at hkey

theorem lastUnder_eq_none : lastUnder key l k = none ↔ ∀ x ∈ l, key x ≠ k := by
  simp [lastUnder]

theorem exists_lastUnder (hx : x ∈ l) (hk : key x = k) : ∃ y, lastUnder key l k = some y := by
  cases h : lastUnder key l k with
  | some y => exact ⟨y, rfl⟩
  | none => exact absurd hk (lastUnder_eq_none.mp h x hx)

/-- Where no key repeats, the last element with a key is the one element with it. -/
theorem lastUnder_of_mem (hnodup : (l.map key).Nodup) (hx : x ∈ l) (hk : key x = k) :
    lastUnder key l k = some x := by
  obtain ⟨y, hy⟩ := exists_lastUnder hx hk
  rw [hy, List.inj_on_of_nodup_map hnodup (mem_of_lastUnder hy) hx
    ((key_of_lastUnder hy).trans hk.symm)]

/-- The last element with a key, by its place in the list. -/
theorem lastUnder_eq_some :
    lastUnder key l k = some x ↔
      key x = k ∧ ∃ earlier later, l = earlier ++ x :: later ∧ ∀ y ∈ later, key y ≠ k := by
  rw [lastUnder, List.find?_eq_some_iff_append, decide_eq_true_eq]
  refine and_congr_right fun _ => ⟨?_, ?_⟩
  · rintro ⟨before, after, hl, hbefore⟩
    refine ⟨after.reverse, before.reverse, ?_, fun y hy => ?_⟩
    · rw [← List.reverse_reverse l, hl]
      simp
    · simpa using hbefore y (List.mem_reverse.mp hy)
  · rintro ⟨earlier, later, rfl, hlater⟩
    exact ⟨later.reverse, earlier.reverse, by simp, fun y hy => by
      simpa using hlater y (List.mem_reverse.mp hy)⟩

/-! ## The loop -/

variable (key) in
/-- Writes the value of each element under its key. -/
def fill (value : α → Except ε V) (l : List α) : Except ε (OrderedMap K V) :=
  l.foldlM (fun m x => (value x).map (m.set (key x))) .empty

variable {value : α → Except ε V} {m : OrderedMap K V}

theorem fill_concat_eq_ok :
    fill key value (l ++ [x]) = .ok m ↔
      ∃ m' v, fill key value l = .ok m' ∧ value x = .ok v ∧ m = m'.set (key x) v := by
  rw [fill, List.foldlM_append, ← fill, bind_eq_ok]
  refine exists_congr fun m' => ?_
  cases hx : value x with
  | error e => simp [hx, Except.map, bind, Except.bind]
  | ok v =>
    simp only [List.foldlM_cons, List.foldlM_nil, hx, Except.map, exists_and_left]
    refine and_congr_right fun _ => ⟨fun h => ⟨v, rfl, (Except.ok.inj h).symm⟩, ?_⟩
    rintro ⟨w, hw, rfl⟩
    rw [Except.ok.inj hw]
    rfl

/-- The loop ends when every element has a value. -/
theorem exists_fill : (∃ m, fill key value l = .ok m) ↔ ∀ x ∈ l, ∃ v, value x = .ok v := by
  induction l using List.reverseRecOn with
  | nil => exact ⟨fun _ x hx => absurd hx List.not_mem_nil, fun _ => ⟨_, rfl⟩⟩
  | append_singleton l x ih =>
    simp only [fill_concat_eq_ok, List.forall_mem_append, List.forall_mem_singleton, ← ih]
    constructor
    · rintro ⟨_, m', v, hm, hv, -⟩
      exact ⟨⟨m', hm⟩, v, hv⟩
    · rintro ⟨⟨m', hm⟩, v, hv⟩
      exact ⟨_, m', v, hm, hv, rfl⟩

/-- What the map holds: the value of the last element with the key. -/
theorem get_fill (h : fill key value l = .ok m) (k : K) :
    m.get k = (lastUnder key l k).bind fun x => (value x).toOption := by
  induction l using List.reverseRecOn generalizing m with
  | nil =>
    cases h
    rfl
  | append_singleton l x ih =>
    obtain ⟨m', v, hm, hv, rfl⟩ := fill_concat_eq_ok.mp h
    rw [lastUnder_concat]
    by_cases hk : key x = k
    · subst hk
      rw [OrderedMap.get_set_self, if_pos rfl, Option.bind_some, hv]
      rfl
    · rw [OrderedMap.get_set_of_ne _ _ (Ne.symm hk), if_neg hk]
      exact ih hm

variable (key) in
/-- The loop whose values cannot fail. -/
theorem get_foldl_set (value : α → V) (l : List α) (k : K) :
    (l.foldl (fun m x => m.set (key x) (value x)) (OrderedMap.empty (V := V))).get k =
      (lastUnder key l k).map value := by
  induction l using List.reverseRecOn with
  | nil => rfl
  | append_singleton l x ih =>
    rw [List.foldl_append, List.foldl_cons, List.foldl_nil, lastUnder_concat]
    by_cases hk : key x = k
    · subst hk
      rw [OrderedMap.get_set_self, if_pos rfl, Option.map_some]
    · rw [OrderedMap.get_set_of_ne _ _ (Ne.symm hk), if_neg hk, ih]

end LastWrite
