import Mathlib.Data.Set.Function
import Mathlib.Tactic.Ring
import Mathlib.Tactic.Linarith

/-! # Perfect binary hash trees

A tree of depth `d` over a node function is given by its leaves, a function on
positions of which the tree reads the first `2 ^ d`.  `nodeAt` is the value at
one height and one position; the root is the value at height `d`, position `0`.

An authentication path lists the siblings of a leaf from the bottom up, and
`walk` recomputes a root from a leaf, a position, and a list of siblings.  The
walk of an honest path gives the root (`walk_path`).  The converse is binding:
a walk that reaches the root of a tree used that tree's leaf and that tree's
siblings (`walk_sound`).

Binding needs a node function without collisions.  A function into a finite type
is never injective, so the assumption is injectivity on a set `S` of pairs that
contains the pairs the tree and the walk hash; outright injectivity is the case
`S = Set.univ`.
-/
namespace MerkleTree
variable {α : Type} (node : α → α → α)

/-- The value at one height and one position. -/
def nodeAt (leaf : Nat → α) : Nat → Nat → α
  | 0, j => leaf j
  | k + 1, j => node (nodeAt leaf k (2 * j)) (nodeAt leaf k (2 * j + 1))

/-- The root of the tree of depth `d`. -/
def root (leaf : Nat → α) (d : Nat) : α := nodeAt node leaf d 0

/-- The other child of the same parent. -/
def sibling (j : Nat) : Nat := if j % 2 = 0 then j + 1 else j - 1

/-- The siblings of position `j` at height `k` and of its ancestors, bottom-up,
over `d` levels. -/
def pathFrom (leaf : Nat → α) : Nat → Nat → Nat → List α
  | _, 0, _ => []
  | k, d + 1, j => nodeAt node leaf k (sibling j) :: pathFrom leaf (k + 1) d (j / 2)

/-- The authentication path of leaf `i` in the tree of depth `d`. -/
def path (leaf : Nat → α) (d i : Nat) : List α := pathFrom node leaf 0 d i

/-- A value at position `i` and its sibling, as the left and the right input of
their parent. -/
def pairUp (x : α) (i : Nat) (s : α) : α × α := if i % 2 = 0 then (x, s) else (s, x)

/-- The value that a leaf at position `i` and a list of siblings reproduce. -/
def walk : α → Nat → List α → α
  | x, _, [] => x
  | x, i, s :: ss => walk (node (pairUp x i s).1 (pairUp x i s).2) (i / 2) ss

/-- The pairs that a walk hashes. -/
def walkPairs : α → Nat → List α → List (α × α)
  | _, _, [] => []
  | x, i, s :: ss =>
    pairUp x i s :: walkPairs (node (pairUp x i s).1 (pairUp x i s).2) (i / 2) ss

/-- The pairs that the tree of depth `d` hashes. -/
def treePairs (leaf : Nat → α) (d : Nat) : Set (α × α) :=
  {q | ∃ k j, k < d ∧ j < 2 ^ (d - 1 - k) ∧
    q = (nodeAt node leaf k (2 * j), nodeAt node leaf k (2 * j + 1))}

variable {leaf leaf' : Nat → α}

@[simp] theorem nodeAt_zero (j : Nat) : nodeAt node leaf 0 j = leaf j := rfl

theorem nodeAt_succ (k j : Nat) :
    nodeAt node leaf (k + 1) j =
      node (nodeAt node leaf k (2 * j)) (nodeAt node leaf k (2 * j + 1)) := rfl

/-- A node reads the leaves below it and no other. -/
theorem nodeAt_congr (k j : Nat)
    (h : ∀ i, j * 2 ^ k ≤ i → i < (j + 1) * 2 ^ k → leaf i = leaf' i) :
    nodeAt node leaf k j = nodeAt node leaf' k j := by
  induction k generalizing j with
  | zero => exact h j (by simp) (by simp)
  | succ k ih =>
    have hleft := ih (2 * j) fun i h1 h2 => h i (by rw [pow_succ]; linarith)
      (by rw [pow_succ]; nlinarith [Nat.two_pow_pos k])
    have hright := ih (2 * j + 1) fun i h1 h2 =>
      h i (by rw [pow_succ]; nlinarith [Nat.two_pow_pos k]) (by rw [pow_succ]; linarith)
    rw [nodeAt_succ, nodeAt_succ, hleft, hright]

theorem root_congr (d : Nat) (h : ∀ i, i < 2 ^ d → leaf i = leaf' i) :
    root node leaf d = root node leaf' d :=
  nodeAt_congr node d 0 fun i _ hi => h i (by simpa using hi)

/-- The values at the heights of a tree whose leaves are all equal. -/
def uniform (x : α) : Nat → α
  | 0 => x
  | k + 1 => node (uniform x k) (uniform x k)

theorem nodeAt_uniform {x : α} (k j : Nat)
    (h : ∀ i, j * 2 ^ k ≤ i → i < (j + 1) * 2 ^ k → leaf i = x) :
    nodeAt node leaf k j = uniform node x k := by
  rw [nodeAt_congr node k j h]
  clear h
  induction k generalizing j with
  | zero => rfl
  | succ k ih => rw [nodeAt_succ, ih, ih, uniform]

/-- The children of a node stand over leaves of the tree. -/
theorem children_le {d k j : Nat} (hk : k < d) (hj : j < 2 ^ (d - 1 - k)) :
    (2 * j + 1 + 1) * 2 ^ k ≤ 2 ^ d := by
  have hpow : 2 ^ (d - 1 - k) * 2 ^ (k + 1) = 2 ^ d := by
    rw [← pow_add]
    congr 1
    omega
  calc (2 * j + 1 + 1) * 2 ^ k = (j + 1) * 2 ^ (k + 1) := by ring
    _ ≤ 2 ^ (d - 1 - k) * 2 ^ (k + 1) := Nat.mul_le_mul_right _ hj
    _ = 2 ^ d := hpow

/-- A tree of equal leaves hashes one pair at each height. -/
theorem treePairs_uniform {x : α} {d : Nat} (h : ∀ i < 2 ^ d, leaf i = x) {q : α × α}
    (hq : q ∈ treePairs node leaf d) :
    ∃ k < d, q = (uniform node x k, uniform node x k) := by
  obtain ⟨k, j, hk, hj, rfl⟩ := hq
  have hbound := children_le hk hj
  have hleft : (2 * j + 1) * 2 ^ k ≤ 2 ^ d := (Nat.mul_le_mul_right _ (by omega)).trans hbound
  exact ⟨k, hk, by rw [nodeAt_uniform node k _ fun i _ hi => h i (hi.trans_le hleft),
    nodeAt_uniform node k _ fun i _ hi => h i (hi.trans_le hbound)]⟩

/-- The values over a first leaf `y` beside which every leaf is `x`. -/
def front (y x : α) : Nat → α
  | 0 => y
  | k + 1 => node (front y x k) (uniform node x k)

section Front
variable {x : α}

theorem nodeAt_one (k : Nat) (h : ∀ i, 0 < i → i < 2 ^ (k + 1) → leaf i = x) :
    nodeAt node leaf k 1 = uniform node x k := by
  have hpow : 2 ^ (k + 1) = 2 ^ k + 2 ^ k := by rw [pow_succ]; omega
  have hpos : 0 < 2 ^ k := Nat.two_pow_pos k
  exact nodeAt_uniform node k 1 fun i hi hlt => h i (by omega) (by omega)

theorem nodeAt_front (k : Nat) (h : ∀ i, 0 < i → i < 2 ^ k → leaf i = x) :
    nodeAt node leaf k 0 = front node (leaf 0) x k := by
  induction k with
  | zero => rfl
  | succ k ih =>
    have hle : 2 ^ k ≤ 2 ^ (k + 1) := Nat.pow_le_pow_right (by decide) (Nat.le_succ k)
    rw [nodeAt_succ, Nat.mul_zero, ih fun i hi hlt => h i hi (hlt.trans_le hle), Nat.zero_add,
      nodeAt_one node k h, front]

/-- A tree whose leaves are equal behind the first one hashes two pairs at each height. -/
theorem treePairs_front {d : Nat} (h : ∀ i, 0 < i → i < 2 ^ d → leaf i = x) {q : α × α}
    (hq : q ∈ treePairs node leaf d) :
    ∃ k < d, q = (uniform node x k, uniform node x k) ∨
      q = (front node (leaf 0) x k, uniform node x k) := by
  obtain ⟨k, j, hk, hj, rfl⟩ := hq
  have hbound := children_le hk hj
  have hpos : 0 < 2 ^ k := Nat.two_pow_pos k
  have huniform : ∀ m, 0 < m → m ≤ 2 * j + 1 → nodeAt node leaf k m = uniform node x k := by
    intro m hm hle
    refine nodeAt_uniform node k m fun i hi hlt => h i ?_ ?_
    · exact (Nat.mul_pos hm hpos).trans_le hi
    · exact hlt.trans_le ((Nat.mul_le_mul_right _ (by omega)).trans hbound)
  refine ⟨k, hk, ?_⟩
  rw [huniform (2 * j + 1) (by omega) (le_refl _)]
  rcases Nat.eq_zero_or_pos j with rfl | hj
  · -- the pair over the first leaf
    have hle : 2 ^ k ≤ 2 ^ d := Nat.pow_le_pow_right (by decide) hk.le
    rw [Nat.mul_zero, nodeAt_front node k fun i hi hlt => h i hi (hlt.trans_le hle)]
    exact .inr rfl
  · rw [huniform (2 * j) (by omega) (by omega)]
    exact .inl rfl

theorem pathFrom_front {k d : Nat} (h : ∀ i, 0 < i → i < 2 ^ (k + d) → leaf i = x) :
    pathFrom node leaf k d 0 = (List.range' k d).map (uniform node x) := by
  induction d generalizing k with
  | zero => rfl
  | succ d ih =>
    have hle : 2 ^ (k + 1) ≤ 2 ^ (k + (d + 1)) := Nat.pow_le_pow_right (by decide) (by omega)
    have hhead := nodeAt_one node k fun i hi hlt => h i hi (hlt.trans_le hle)
    rw [pathFrom, List.range'_succ, List.map_cons]
    exact congrArg₂ List.cons hhead (ih fun i hi hlt => h i hi
      (by rwa [show k + (d + 1) = k + 1 + d by omega]))

/-- Beside the first leaf there are the values of equal leaves. -/
theorem path_front {d : Nat} (h : ∀ i, 0 < i → i < 2 ^ d → leaf i = x) :
    path node leaf d 0 = (List.range d).map (uniform node x) := by
  rw [path, List.range_eq_range']
  exact pathFrom_front node fun i hi hlt => h i hi (by rwa [Nat.zero_add] at hlt)

end Front

/-- A map that commutes with the node functions maps the tree. -/
theorem map_nodeAt {β : Type} {node' : β → β → β} {f : α → β}
    (hf : ∀ a b, f (node a b) = node' (f a) (f b)) (k j : Nat) :
    f (nodeAt node leaf k j) = nodeAt node' (fun i => f (leaf i)) k j := by
  induction k generalizing j with
  | zero => rfl
  | succ k ih => rw [nodeAt_succ, nodeAt_succ, hf, ih, ih]

/-! ## Trees of trees -/

/-- A tree over the nodes at height `b` is the upper part of the whole tree. -/
theorem nodeAt_nodeAt (b k j : Nat) :
    nodeAt node (nodeAt node leaf b) k j = nodeAt node leaf (b + k) j := by
  induction k generalizing j with
  | zero => rfl
  | succ k ih => rw [nodeAt_succ, ih, ih]; rfl

/-- A node at height `b` is the root of the leaves below it. -/
theorem nodeAt_shift (b c j : Nat) :
    nodeAt node (fun i => leaf (c * 2 ^ b + i)) b j = nodeAt node leaf b (c + j) := by
  induction b generalizing c j with
  | zero => simp
  | succ b ih =>
    have hstep : ∀ i, nodeAt node (fun i => leaf (c * 2 ^ (b + 1) + i)) b i =
        nodeAt node leaf b (2 * c + i) := by
      intro i
      rw [← ih (2 * c) i, show c * 2 ^ (b + 1) = 2 * c * 2 ^ b by ring]
    rw [nodeAt_succ, nodeAt_succ, hstep, hstep]
    congr 2 <;> ring_nf

/-- **Two folds give one tree.**  The roots of consecutive blocks of `2 ^ b`
leaves, folded again, are the root over all leaves. -/
theorem root_of_roots (b k : Nat) :
    root node (fun c => root node (fun i => leaf (c * 2 ^ b + i)) b) k =
      root node leaf (b + k) := by
  have hblock : (fun c => root node (fun i => leaf (c * 2 ^ b + i)) b) =
      nodeAt node leaf b := by
    funext c
    exact nodeAt_shift node b c 0
  rw [hblock]
  exact nodeAt_nodeAt node b k 0

/-! ## Paths -/

theorem length_pathFrom (k d j : Nat) : (pathFrom node leaf k d j).length = d := by
  induction d generalizing k j with
  | zero => rfl
  | succ d ih => rw [pathFrom, List.length_cons, ih]

theorem length_path (d i : Nat) : (path node leaf d i).length = d := length_pathFrom node 0 d i

/-- A node and its sibling are the two inputs of their parent. -/
theorem pairUp_sibling (k j : Nat) :
    pairUp (nodeAt node leaf k j) j (nodeAt node leaf k (sibling j)) =
      (nodeAt node leaf k (2 * (j / 2)), nodeAt node leaf k (2 * (j / 2) + 1)) := by
  unfold pairUp sibling
  rcases Nat.mod_two_eq_zero_or_one j with h | h
  · rw [if_pos h, if_pos h, show 2 * (j / 2) = j by omega]
  · rw [if_neg (by omega), if_neg (by omega), show 2 * (j / 2) = j - 1 by omega,
      show j - 1 + 1 = j by omega]

theorem walk_pathFrom (k d j : Nat) :
    walk node (nodeAt node leaf k j) j (pathFrom node leaf k d j) =
      nodeAt node leaf (k + d) (j / 2 ^ d) := by
  induction d generalizing k j with
  | zero => simp [pathFrom, walk]
  | succ d ih =>
    rw [pathFrom, walk, pairUp_sibling]
    have h := ih (k + 1) (j / 2)
    rw [nodeAt_succ] at h
    rw [h, Nat.div_div_eq_div_mul, ← pow_succ', show k + 1 + d = k + (d + 1) by ring]

/-- **Completeness.**  The path of a leaf recomputes the root. -/
theorem walk_path {d i : Nat} (hi : i < 2 ^ d) :
    walk node (leaf i) i (path node leaf d i) = root node leaf d := by
  have h := @walk_pathFrom α node leaf 0 d i
  rwa [Nat.div_eq_of_lt hi, Nat.zero_add] at h

theorem walkPairs_pathFrom {k d j : Nat} (hj : j < 2 ^ d) {q : α × α}
    (hq : q ∈ walkPairs node (nodeAt node leaf k j) j (pathFrom node leaf k d j)) :
    q ∈ treePairs node leaf (k + d) := by
  induction d generalizing k j with
  | zero => simp [pathFrom, walkPairs] at hq
  | succ d ih =>
    have hhalf : j / 2 < 2 ^ d := by rw [pow_succ] at hj; omega
    rw [pathFrom, walkPairs, pairUp_sibling, List.mem_cons] at hq
    rcases hq with rfl | hq
    · exact ⟨k, j / 2, by omega, by rwa [show k + (d + 1) - 1 - k = d by omega], rfl⟩
    · rw [show k + (d + 1) = k + 1 + d by ring]
      exact ih hhalf hq

/-- An honest path hashes no pair that the tree did not hash. -/
theorem walkPairs_path {d i : Nat} (hi : i < 2 ^ d) {q : α × α}
    (hq : q ∈ walkPairs node (leaf i) i (path node leaf d i)) : q ∈ treePairs node leaf d := by
  have h := @walkPairs_pathFrom α node leaf 0 d i hi q hq
  rwa [Nat.zero_add] at h

/-! ## Binding -/

variable {node}

/-- A node pair that hashes like the two children of a parent is those two
children, so the value and its sibling are the tree's. -/
theorem pairUp_eq_children {k j : Nat} {x s : α}
    (h : pairUp x j s =
      (nodeAt node leaf k (2 * (j / 2)), nodeAt node leaf k (2 * (j / 2) + 1))) :
    x = nodeAt node leaf k j ∧ s = nodeAt node leaf k (sibling j) := by
  rw [← pairUp_sibling] at h
  unfold pairUp at h
  split at h
  · exact Prod.mk.inj h
  · exact (Prod.mk.inj h).symm

/-- A walk from height `k` that reaches the root started at the tree's value and
used the tree's siblings.  The induction climbs the walk; each level is pinned
from above, since its parent already is. -/
theorem walk_sound_from {S : Set (α × α)} (hinj : Set.InjOn (fun q => node q.1 q.2) S)
    {d : Nat} (htree : treePairs node leaf d ⊆ S) (ss : List α) (k j : Nat) (x : α)
    (hd : k + ss.length = d) (hj : j < 2 ^ ss.length)
    (hwalk : ∀ q ∈ walkPairs node x j ss, q ∈ S) (h : walk node x j ss = root node leaf d) :
    x = nodeAt node leaf k j ∧ ss = pathFrom node leaf k ss.length j := by
  induction ss generalizing k j x with
  | nil =>
    obtain rfl : k = d := hd
    obtain rfl : j = 0 := by simpa using hj
    exact ⟨h, rfl⟩
  | cons s ss ih =>
    rw [List.length_cons] at hd hj
    rw [walkPairs, List.forall_mem_cons] at hwalk
    have hhalf : j / 2 < 2 ^ ss.length := by rw [pow_succ] at hj; omega
    obtain ⟨hparent, hrest⟩ :=
      ih (k + 1) (j / 2) _ (by omega) hhalf hwalk.2 h
    have hchildren : (nodeAt node leaf k (2 * (j / 2)), nodeAt node leaf k (2 * (j / 2) + 1)) ∈
        treePairs node leaf d :=
      ⟨k, j / 2, by omega, by rwa [show d - 1 - k = ss.length by omega], rfl⟩
    obtain ⟨hx, hs⟩ := pairUp_eq_children (hinj hwalk.1 (htree hchildren) hparent)
    exact ⟨hx, by rw [List.length_cons, pathFrom, ← hs, ← hrest]⟩

/-- **Binding.**  A walk of the right length from a position inside the tree
reaches the root only from the tree's leaf and along the tree's path. -/
theorem walk_sound {S : Set (α × α)} (hinj : Set.InjOn (fun q => node q.1 q.2) S) {d : Nat}
    (htree : treePairs node leaf d ⊆ S) {ss : List α} {i : Nat} {x : α} (hd : ss.length = d)
    (hi : i < 2 ^ d) (hwalk : ∀ q ∈ walkPairs node x i ss, q ∈ S)
    (h : walk node x i ss = root node leaf d) :
    x = leaf i ∧ ss = path node leaf d i := by
  have := walk_sound_from hinj htree ss 0 i x (by omega) (by rwa [hd]) hwalk h
  rwa [hd] at this

/-- **Equal roots have equal leaves.** -/
theorem leaf_eq_of_root_eq {S : Set (α × α)} (hinj : Set.InjOn (fun q => node q.1 q.2) S) {d : Nat}
    (htree : treePairs node leaf d ⊆ S) (htree' : treePairs node leaf' d ⊆ S)
    (h : root node leaf d = root node leaf' d) {i : Nat} (hi : i < 2 ^ d) : leaf i = leaf' i :=
  (walk_sound hinj htree' (length_path node d i) hi
    (fun _ hq => htree (walkPairs_path node hi hq)) ((walk_path node hi).trans h)).1

end MerkleTree
