import Mathlib.Data.List.Sort
import Mathlib.Data.List.Induction

/-! # In-place insertion sort

The textbook loop on an array: element `i` sinks to the left by adjacent swaps
while its left neighbour is larger.  The loop only swaps, so the result is a
permutation, and after round `i` the first `i + 1` elements are in order, so the
result is sorted.  A sorted list without equal neighbours has no repetition
(`nodup_of_sorted_of_neighbours`).
-/
namespace InsertionSort
variable {α : Type} [LinearOrder α]

/-- The inner loop: the element at position `j` sinks while its left neighbour
is larger. -/
def sink (sorted : List α) : Nat → List α
  | 0 => sorted
  | j + 1 =>
    match sorted[j]?, sorted[j + 1]? with
    | some a, some b =>
      if b < a then sink ((sorted.set j b).set (j + 1) a) j else sorted
    | _, _ => sorted

/-- The outer loop, from the second element on. -/
def insertionSort (l : List α) : List α := (List.range' 1 (l.length - 1)).foldl sink l

/-- A list that holds two equal neighbours. -/
def hasEqualNeighbours (l : List α) : Bool :=
  (List.range' 1 (l.length - 1)).any fun i => decide (l[i - 1]? = l[i]?)

theorem sink_append (p : List α) (y x : α) (r : List α) :
    sink (p ++ y :: x :: r) (p.length + 1) =
      if x < y then sink (p ++ x :: y :: r) p.length else p ++ y :: x :: r := by
  simp [sink]

/-- One round: the prefix stays sorted and takes the next element in. -/
theorem sink_spec (p : List α) (x : α) (r : List α) (hp : p.Pairwise (· ≤ ·)) :
    ∃ p', sink (p ++ x :: r) p.length = p' ++ r ∧ p'.Perm (p ++ [x]) ∧
      p'.Pairwise (· ≤ ·) := by
  induction p using List.reverseRecOn generalizing r with
  | nil => exact ⟨[x], rfl, List.Perm.refl _, List.pairwise_singleton _ _⟩
  | append_singleton q y ih =>
    obtain ⟨hq, -, hqy⟩ := List.pairwise_append.mp hp
    rw [List.length_append, List.length_singleton, List.append_assoc, List.singleton_append,
      sink_append]
    split
    · rename_i hxy
      obtain ⟨q', hsink, hperm, hsorted⟩ := ih (y :: r) hq
      refine ⟨q' ++ [y], by rw [hsink, List.append_assoc, List.singleton_append], ?_, ?_⟩
      · refine (hperm.append_right [y]).trans ?_
        rw [List.append_assoc, List.append_assoc]
        exact (List.Perm.swap y x []).append_left q
      · refine List.pairwise_append.mpr ⟨hsorted, List.pairwise_singleton _ _, ?_⟩
        intro a ha b hb
        rw [List.mem_singleton.mp hb]
        rcases List.mem_append.mp (hperm.mem_iff.mp ha) with ha | ha
        · exact hqy a ha y (List.mem_singleton_self y)
        · exact (List.mem_singleton.mp ha).le.trans hxy.le
    · rename_i hxy
      refine ⟨q ++ [y] ++ [x], by simp, List.Perm.refl _, ?_⟩
      refine List.pairwise_append.mpr ⟨hp, List.pairwise_singleton _ _, ?_⟩
      intro a ha b hb
      rw [List.mem_singleton.mp hb]
      rcases List.mem_append.mp ha with ha | ha
      · exact (hqy a ha y (List.mem_singleton_self y)).trans (not_lt.mp hxy)
      · exact (List.mem_singleton.mp ha).le.trans (not_lt.mp hxy)

/-- All remaining rounds, from a sorted prefix. -/
theorem foldl_sink_spec (r p : List α) (hp : p.Pairwise (· ≤ ·)) :
    ((List.range' p.length r.length).foldl sink (p ++ r)).Perm (p ++ r) ∧
      ((List.range' p.length r.length).foldl sink (p ++ r)).Pairwise (· ≤ ·) := by
  induction r generalizing p with
  | nil => simpa using hp
  | cons x r ih =>
    obtain ⟨p', hsink, hperm, hsorted⟩ := sink_spec p x r hp
    have hlen : p'.length = p.length + 1 := by simpa using hperm.length_eq
    obtain ⟨h1, h2⟩ := ih p' hsorted
    rw [List.length_cons, List.range'_succ, List.foldl_cons, hsink, ← hlen]
    refine ⟨h1.trans ?_, h2⟩
    simpa using hperm.append_right r

theorem insertionSort_spec (l : List α) :
    (insertionSort l).Perm l ∧ (insertionSort l).Pairwise (· ≤ ·) := by
  cases l with
  | nil => exact ⟨List.Perm.refl _, List.Pairwise.nil⟩
  | cons x r => exact foldl_sink_spec r [x] (List.pairwise_singleton _ _)

theorem insertionSort_perm (l : List α) : (insertionSort l).Perm l := (insertionSort_spec l).1

theorem insertionSort_sorted (l : List α) : (insertionSort l).Pairwise (· ≤ ·) :=
  (insertionSort_spec l).2

/-- The sort gives the only sorted permutation. -/
theorem eq_insertionSort {l l' : List α} (hperm : l'.Perm l) (hsorted : l'.Pairwise (· ≤ ·)) :
    l' = insertionSort l :=
  List.Perm.eq_of_pairwise (fun _ _ _ _ => le_antisymm) hsorted (insertionSort_sorted l)
    (hperm.trans (insertionSort_perm l).symm)

theorem insertionSort_congr {l l' : List α} (h : l.Perm l') :
    insertionSort l = insertionSort l' :=
  eq_insertionSort ((insertionSort_perm l).trans h) (insertionSort_sorted l)

/-! ### A prefix of a longer array -/

theorem length_sink (l : List α) (j : Nat) : (sink l j).length = l.length := by
  induction j generalizing l with
  | zero => rfl
  | succ j ih =>
    unfold sink
    split
    · split
      · rw [ih, List.length_set, List.length_set]
      · rfl
    · rfl

/-- A round that starts in the prefix leaves the rest of the array alone. -/
theorem sink_prefix {l : List α} (pad : List α) {j : Nat} (h : j < l.length) :
    sink (l ++ pad) j = sink l j ++ pad := by
  induction j generalizing l with
  | zero => rfl
  | succ j ih =>
    have hj : j < l.length := by omega
    rw [sink, sink, List.getElem?_append_left hj, List.getElem?_append_left h,
      List.getElem?_eq_getElem hj, List.getElem?_eq_getElem h]
    dsimp only
    split
    · rw [List.set_append_left _ _ hj, List.set_append_left _ _ (by rwa [List.length_set]),
        ih (by rwa [List.length_set, List.length_set])]
    · rfl

theorem foldl_sink_prefix (l pad : List α) :
    (List.range' 1 (l.length - 1)).foldl sink (l ++ pad) = insertionSort l ++ pad := by
  have hrounds : ∀ (rounds : List Nat) (l' : List α), l'.length = l.length →
      (∀ i ∈ rounds, i < l.length) →
      rounds.foldl sink (l' ++ pad) = rounds.foldl sink l' ++ pad := by
    intro rounds
    induction rounds with
    | nil => exact fun _ _ _ => rfl
    | cons i rounds ih =>
      intro l' hlength h
      rw [List.forall_mem_cons] at h
      rw [List.foldl_cons, List.foldl_cons, sink_prefix pad (by rw [hlength]; exact h.1)]
      exact ih _ ((length_sink l' i).trans hlength) h.2
  refine hrounds _ l rfl fun i hi => ?_
  have := List.mem_range'_1.mp hi
  omega

/-- Two equal neighbours among the first `count` elements. -/
def hasEqualNeighboursIn (count : Nat) (l : List α) : Bool :=
  (List.range' 1 (count - 1)).any fun i => decide (l[i - 1]? = l[i]?)

theorem hasEqualNeighboursIn_append (l pad : List α) :
    hasEqualNeighboursIn l.length (l ++ pad) = hasEqualNeighbours l := by
  unfold hasEqualNeighboursIn hasEqualNeighbours
  rw [Bool.eq_iff_iff, List.any_eq_true, List.any_eq_true]
  refine exists_congr fun i => and_congr_right fun hi => ?_
  have hi := List.mem_range'_1.mp hi
  rw [List.getElem?_append_left (by omega), List.getElem?_append_left (by omega)]

theorem hasEqualNeighbours_eq_false {l : List α} :
    hasEqualNeighbours l = false ↔ ∀ i, ∀ h : i + 1 < l.length, l[i] ≠ l[i + 1] := by
  simp only [hasEqualNeighbours, List.any_eq_false, List.mem_range'_1, decide_eq_true_eq]
  constructor
  · intro h i hi heq
    have hne := h (i + 1) ⟨by omega, by omega⟩
    rw [Nat.add_sub_cancel, List.getElem?_eq_getElem (by omega), List.getElem?_eq_getElem hi,
      Option.some.injEq] at hne
    exact hne heq
  · rintro h i ⟨h1, h2⟩ heq
    obtain ⟨j, rfl⟩ := Nat.exists_eq_add_of_le' h1
    rw [Nat.add_sub_cancel, List.getElem?_eq_getElem (by omega),
      List.getElem?_eq_getElem (by omega), Option.some.injEq] at heq
    exact h j (by omega) heq

/-- In a sorted list, equal elements are neighbours, so comparing neighbours finds
every repetition. -/
theorem nodup_of_sorted_of_neighbours {l : List α} (hs : l.Pairwise (· ≤ ·))
    (h : hasEqualNeighbours l = false) : l.Nodup := by
  have hlt : l.Pairwise (· < ·) := by
    refine List.pairwise_iff_getElem.mpr fun i j hi hj hij => ?_
    have hnext : l[i] < l[i + 1] :=
      lt_of_le_of_ne (List.pairwise_iff_getElem.mp hs i (i + 1) hi (by omega) (by omega))
        (hasEqualNeighbours_eq_false.mp h i (by omega))
    rcases Nat.lt_or_ge (i + 1) j with hj' | hj'
    · exact hnext.trans_le (List.pairwise_iff_getElem.mp hs (i + 1) j (by omega) hj hj')
    · obtain rfl : j = i + 1 := by omega
      exact hnext
  exact hlt.imp fun h => h.ne

/-- A sorted permutation has equal neighbours exactly when the list repeats an
element. -/
theorem hasEqualNeighbours_insertionSort {l : List α} :
    hasEqualNeighbours (insertionSort l) = false ↔ l.Nodup := by
  rw [← (insertionSort_perm l).nodup_iff]
  constructor
  · exact nodup_of_sorted_of_neighbours (insertionSort_sorted l)
  · intro h
    refine hasEqualNeighbours_eq_false.mpr fun i hi heq => ?_
    have := h.getElem_inj_iff.mp heq
    omega

end InsertionSort
