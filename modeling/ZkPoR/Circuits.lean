import ZkPoR.BoundedLoop
import ZkPoR.Field
import ZkPoR.MerkleTree
import Mathlib.Algebra.Group.Action.Defs
import Mathlib.Algebra.Order.BigOperators.Ring.Finset

/-! # The recursion circuits

The inner circuit proves one batch of customers: its leaves hash to `subroot` and
its balances add up to `subtotal`.  The aggregator verifies one inner proof for
each slot, folds the subroots into one root, and adds up the subtotals.

A circuit is a function from its inputs to a refusal or its outputs, and a
witness satisfies the constraints when the answer is not a refusal.

Each circuit accepts exactly what a few equations over its inputs say
(`Inner.main_eq_ok`, `Agg.main_eq_ok`): the loops fill an array and keep an exact
sum, and the heap fold is the root of a uniform tree.
-/
namespace ZkPoR.Circuit
open CheckedInt BoundedLoop

/-- Why a witness does not satisfy the constraints. -/
inductive Failure
  /-- An assertion that carries a message. -/
  | assertion (message : String)
  /-- An assertion that carries none. -/
  | constraint
  /-- An addition that leaves its width. -/
  | overflow
  /-- A proof that the verifier refuses. -/
  | innerProof
deriving DecidableEq

/-- The parameters of the circuits: the batch size `b`, which is `BATCH_B`, and the
number of batches `k`, which is `NUM_BATCHES_K`.  Both are powers of two from 2 on,
and an index of a leaf is a 64-bit integer. -/
structure Shape where
  b : Nat
  k : Nat
  two_le_b : 2 ≤ b
  isPowerOfTwo_b : b.isPowerOfTwo
  two_le_k : 2 ≤ k
  isPowerOfTwo_k : k.isPowerOfTwo
  capacity_lt : b * k < 2 ^ 64

namespace Shape
variable (shape : Shape)

/-- The number of leaves. -/
def capacity : Nat := shape.b * shape.k

/-- The depth of the tree of one batch. -/
def batchDepth : Nat := shape.b.log2

/-- The depth of the tree over the batches. -/
def slotDepth : Nat := shape.k.log2

/-- The depth of the whole tree. -/
def depth : Nat := shape.batchDepth + shape.slotDepth

theorem b_eq : shape.b = 2 ^ shape.batchDepth := by
  obtain ⟨d, hd⟩ := shape.isPowerOfTwo_b
  rw [batchDepth, hd, Nat.log2_two_pow]

theorem k_eq : shape.k = 2 ^ shape.slotDepth := by
  obtain ⟨d, hd⟩ := shape.isPowerOfTwo_k
  rw [slotDepth, hd, Nat.log2_two_pow]

theorem capacity_eq : shape.capacity = 2 ^ shape.depth := by
  rw [capacity, depth, pow_add, ← b_eq, ← k_eq]

instance : NeZero shape.b := ⟨by have := shape.two_le_b; omega⟩

instance : NeZero shape.k := ⟨by have := shape.two_le_k; omega⟩

end Shape

/-! ## `common` -/

def BALANCE_DOMAIN_TAG : Fr := 0x7a6b706f722d62616c616e63652d7631
def LEAF_DOMAIN_TAG : Fr := 0x7a6b706f722d6c6561662d7632
def PADDING_LEAF_ID : Fr := 0
def PADDING_LEAF_BALANCE : U64 := 0

section Hashes
variable (poseidon2 : List Fr → Fr)

def hash2 (a b : Fr) : Fr := poseidon2 [a, b]

def balanceCommitment (balance : U64) (salt : Fr) : Fr :=
  poseidon2 [BALANCE_DOMAIN_TAG, frOfNat balance.toNat, salt]

def leafHash (id commitment : Fr) : Fr := poseidon2 [LEAF_DOMAIN_TAG, id, commitment]

/-- Root of a full binary tree over `M` leaves.  The heap holds the leaves in
`[M, 2M)`, and each internal node `i` is the hash of the nodes `2i` and `2i + 1`,
filled from `M - 1` down to `1`. -/
def subtreeRoot {M : Nat} [NeZero M] (leaves : Vector Fr M) : Fr :=
  have : 0 < M := NeZero.pos M
  let nodes : Vector Fr (2 * M) :=
    Nat.fold M (fun j _ nodes => nodes.set (M + j) leaves[j]) (Vector.replicate (2 * M) 0)
  let nodes := Nat.fold (M - 1) (fun i _ nodes =>
    let idx := M - 1 - i
    nodes.set idx (hash2 poseidon2 nodes[2 * idx] nodes[2 * idx + 1])) nodes
  nodes[1]

end Hashes

/-! ### The fold of the heap is the tree -/

section Fold
variable {poseidon2 : List Fr → Fr} {M : Nat} {leaves : Vector Fr M}

/-- The first loop writes the leaves, from position `M` on. -/
theorem entry_leaves (i : Nat) (hi : i < M) :
    entry 0 (Nat.fold M (fun j _ nodes => nodes.set (M + j) leaves[j])
      (Vector.replicate (2 * M) (0 : Fr))) (M + i) = entry 0 leaves i := by
  refine fold_invariant (n := M)
    (P := fun j nodes => ∀ i, i < j → entry 0 nodes (M + i) = entry 0 leaves i) (by simp)
    (fun j hj nodes ih i hi => ?_) i hi
  rw [entry_set]
  split
  · rename_i h
    rw [show i = j by omega, entry_of_lt hj]
  · exact ih i (by omega)

/-- What the second loop has written when it arrives at position `low`: node
`2 ^ h + p` of the heap is node `p` at depth `h` of the tree. -/
def HeapFrom (poseidon2 : List Fr → Fr) (leaves : Vector Fr M) (d low : Nat)
    (nodes : Vector Fr (2 * M)) : Prop :=
  ∀ h p, h ≤ d → p < 2 ^ h → low ≤ 2 ^ h + p →
    entry 0 nodes (2 ^ h + p) = MerkleTree.nodeAt (hash2 poseidon2) (entry 0 leaves) (d - h) p

/-- One iteration writes the parent of two nodes that are there. -/
theorem heapFrom_set {d idx : Nat} {nodes : Vector Fr (2 * M)} (hM : M = 2 ^ d) (hpos : 1 ≤ idx)
    (hidx : idx < M) (hnodes : HeapFrom poseidon2 leaves d (idx + 1) nodes) :
    HeapFrom poseidon2 leaves d idx
      (nodes.set idx (hash2 poseidon2 nodes[2 * idx] nodes[2 * idx + 1])) := by
  intro h p hh hp hlow
  rw [entry_set]
  split
  · rename_i heq
    have hlt : h < d := by
      by_contra hge
      rw [show h = d by omega, ← hM] at heq
      omega
    have hpow : 2 ^ (h + 1) = 2 * 2 ^ h := by rw [pow_succ]; ring
    have hleft := hnodes (h + 1) (2 * p) (by omega) (by omega) (by omega)
    have hright := hnodes (h + 1) (2 * p + 1) (by omega) (by omega) (by omega)
    rw [show 2 ^ (h + 1) + 2 * p = 2 * idx by omega, entry_of_lt (by omega)] at hleft
    rw [show 2 ^ (h + 1) + (2 * p + 1) = 2 * idx + 1 by omega, entry_of_lt (by omega)] at hright
    rw [show d - h = d - (h + 1) + 1 by omega, MerkleTree.nodeAt_succ, hleft, hright]
  · exact hnodes h p hh hp (by omega)

/-- **The heap fold is the uniform tree.** -/
theorem subtreeRoot_eq [NeZero M] {d : Nat} (hM : M = 2 ^ d) :
    subtreeRoot poseidon2 leaves =
      MerkleTree.root (hash2 poseidon2) (entry 0 leaves) d := by
  have hpos : 0 < M := NeZero.pos M
  have hleaves : HeapFrom poseidon2 leaves d M
      (Nat.fold M (fun j _ nodes => nodes.set (M + j) leaves[j]) (Vector.replicate (2 * M) 0)) := by
    intro h p hh hp hlow
    have hd : h = d := by
      by_contra hne
      have : 2 ^ (h + 1) ≤ 2 ^ d := Nat.pow_le_pow_right (by norm_num) (by omega)
      rw [pow_succ] at this
      omega
    subst hd
    rw [← hM, entry_leaves p (by omega), Nat.sub_self, MerkleTree.nodeAt_zero]
  have hall := fold_invariant (n := M - 1) (P := fun i => HeapFrom poseidon2 leaves d (M - i))
    hleaves fun i hi nodes (ih : HeapFrom poseidon2 leaves d (M - i) nodes) =>
    show HeapFrom poseidon2 leaves d (M - (i + 1)) (nodes.set (M - 1 - i)
      (hash2 poseidon2 nodes[2 * (M - 1 - i)] nodes[2 * (M - 1 - i) + 1])) by
      rw [show M - (i + 1) = M - 1 - i by omega]
      exact heapFrom_set hM (by omega) (by omega) (by rwa [show M - 1 - i + 1 = M - i by omega])
  have hroot := hall 0 0 (Nat.zero_le d) (by norm_num) (by simp; omega)
  rw [pow_zero, Nat.add_zero, Nat.sub_zero, entry_of_lt (by omega)] at hroot
  exact hroot

end Fold

/-! ## `inner` -/

/-- The inputs of one inner circuit: three public values, and the identifier, the
balance, and the salt of each customer of the batch. -/
structure Inner.Inputs (B : Nat) where
  batchSlot : Fr
  subroot : Fr
  subtotal : Fr
  ids : Vector Fr B
  balances : Vector U64 B
  salts : Vector Fr B

section Inner
variable (poseidon2 : List Fr → Fr) {B : Nat}

/-- One iteration: the leaf of one customer, and the running sum. -/
def Inner.step (w : Inner.Inputs B) (j : Nat) (hj : j < B) (s : Vector Fr B × U128) :
    Except Failure (Vector Fr B × U128) :=
  let (leaves, sum) := s
  let balance := w.balances[j]
  if ¬ (w.ids[j] ≠ PADDING_LEAF_ID ∨ balance = PADDING_LEAF_BALANCE) then
    .error (.assertion "a padding identifier has a zero balance")
  else
    let leaves := leaves.set j
      (leafHash poseidon2 w.ids[j] (balanceCommitment poseidon2 balance w.salts[j]))
    match checkedAdd sum (balance.setWidth 128) with
    | none => .error .overflow
    | some sum => .ok (leaves, sum)

/-- `main` of the inner circuit.  The slot is public and otherwise unconstrained. -/
def Inner.main [NeZero B] (w : Inner.Inputs B) : Except Failure Unit :=
  match forRange B (Vector.replicate B 0, 0) (Inner.step poseidon2 w) with
  | .error reason => .error reason
  | .ok (leaves, sum) =>
    if subtreeRoot poseidon2 leaves ≠ w.subroot then
      .error (.assertion "the leaves do not hash to the subroot")
    else if w.subtotal ≠ frOfNat sum.toNat then
      .error (.assertion "the subtotal is not the batch sum")
    else
      .ok ()

end Inner

/-! ## `agg` -/

abbrev INNER_PUB_LEN : Nat := 3
def SLOT_IDX : Fin INNER_PUB_LEN := 0
def SUBROOT_IDX : Fin INNER_PUB_LEN := 1
def SUBTOTAL_IDX : Fin INNER_PUB_LEN := 2
def VK_LEN : Nat := 112
def PROOF_LEN : Nat := 456
def VK_COMMIT_WIDTH : Nat := 128

instance : NeZero VK_COMMIT_WIDTH := ⟨by decide⟩

/-- `verify_ultrahonk_proof`: a key, a proof, the public inputs, and the hash of
the key. -/
abbrev Verifier : Type :=
  Vector Fr VK_LEN → Vector Fr PROOF_LEN → Vector Fr INNER_PUB_LEN → Fr → Bool

section Agg
variable (poseidon2 : List Fr → Fr) (verifyUltrahonkProof : Verifier)

/-- The key, zero-padded to the width of the commitment. -/
def Agg.padded (innerVk : Vector Fr VK_LEN) : Vector Fr VK_COMMIT_WIDTH :=
  Nat.fold VK_LEN (fun i hi padded =>
    padded.set i innerVk[i] (Nat.lt_trans hi (by decide))) (Vector.replicate VK_COMMIT_WIDTH 0)

/-- The hash of a key. -/
def Agg.vkHash (innerVk : Vector Fr VK_LEN) : Fr := subtreeRoot poseidon2 (Agg.padded innerVk)

/-- One iteration: the proof of one slot. -/
def Agg.step {K : Nat} (innerVk : Vector Fr VK_LEN) (vkHash : Fr)
    (proofs : Vector (Vector Fr PROOF_LEN) K) (pubInputs : Vector (Vector Fr INNER_PUB_LEN) K)
    (k : Nat) (hk : k < K) (s : Vector Fr K × U128) : Except Failure (Vector Fr K × U128) :=
  let (subroots, total) := s
  if pubInputs[k][SLOT_IDX] ≠ frOfNat k then
    .error .constraint
  else if verifyUltrahonkProof innerVk proofs[k] pubInputs[k] vkHash = false then
    .error .innerProof
  else
    let subroots := subroots.set k pubInputs[k][SUBROOT_IDX]
    -- A cast to `u128` keeps the low 128 bits.
    match checkedAdd total (BitVec.ofNat 128 pubInputs[k][SUBTOTAL_IDX].val) with
    | none => .error .overflow
    | some total => .ok (subroots, total)

/-- `main` of the aggregator, which pins the inner key to `pinnedInnerVkHash`.  The
context hash is public and otherwise unconstrained.  The outputs are the hash of
the key, the final root, and `L`. -/
def Agg.main {K : Nat} [NeZero K] (pinnedInnerVkHash : Fr) (_contextHash : Fr)
    (innerVk : Vector Fr VK_LEN) (proofs : Vector (Vector Fr PROOF_LEN) K)
    (pubInputs : Vector (Vector Fr INNER_PUB_LEN) K) : Except Failure (Fr × Fr × Fr) :=
  let vkHash := Agg.vkHash poseidon2 innerVk
  if vkHash ≠ pinnedInnerVkHash then
    .error .constraint
  else
    match forRange K (Vector.replicate K 0, 0)
        (Agg.step verifyUltrahonkProof innerVk vkHash proofs pubInputs) with
    | .error reason => .error reason
    | .ok (subroots, total) => .ok (vkHash, subtreeRoot poseidon2 subroots, frOfNat total.toNat)

end Agg

/-! ## Leaves -/

/-- One customer leaf, opened. -/
structure Leaf where
  id : Fr
  balance : U64
  salt : Fr
deriving DecidableEq

/-- The hash of an opened leaf. -/
def Leaf.hash (poseidon2 : List Fr → Fr) (leaf : Leaf) : Fr :=
  leafHash poseidon2 leaf.id (balanceCommitment poseidon2 leaf.balance leaf.salt)

/-- A padding identifier has a zero balance. -/
def Leaf.Padded (leaf : Leaf) : Prop :=
  leaf.id = PADDING_LEAF_ID → leaf.balance = PADDING_LEAF_BALANCE

/-- The exact sum of the first `n` balances. -/
def total (leaf : Nat → Leaf) (n : Nat) : Nat := ∑ i ∈ Finset.range n, (leaf i).balance.toNat

theorem total_succ (leaf : Nat → Leaf) (n : Nat) :
    total leaf (n + 1) = total leaf n + (leaf n).balance.toNat := Finset.sum_range_succ _ n

theorem total_le (leaf : Nat → Leaf) (n : Nat) : total leaf n ≤ n * (2 ^ 64 - 1) := by
  have h := Finset.sum_le_card_nsmul (Finset.range n) (fun i => (leaf i).balance.toNat)
    (2 ^ 64 - 1) fun i _ => by have := (leaf i).balance.isLt; omega
  rwa [Finset.card_range, smul_eq_mul] at h

/-- The sum over all leaves is the sum of the sums of the batches. -/
theorem total_mul (leaf : Nat → Leaf) (b k : Nat) :
    total leaf (k * b) = ∑ c ∈ Finset.range k, total (fun j => leaf (c * b + j)) b := by
  induction k with
  | zero => simp [total]
  | succ k ih =>
    rw [Finset.sum_range_succ, ← ih, Nat.succ_mul]
    exact Finset.sum_range_add _ _ _

/-! ## What the inner circuit accepts -/

section Inner
variable {poseidon2 : List Fr → Fr} {B : Nat} {w : Inner.Inputs B}

/-- The leaf that the inputs open at one position. -/
def Inner.Inputs.leaf (w : Inner.Inputs B) (j : Nat) : Leaf where
  id := entry 0 w.ids j
  balance := entry 0 w.balances j
  salt := entry 0 w.salts j

theorem Inner.step_eq_ok {j : Nat} {hj : j < B} {s s' : Vector Fr B × U128} :
    Inner.step poseidon2 w j hj s = .ok s' ↔
      (w.leaf j).Padded ∧ s'.1 = s.1.set j ((w.leaf j).hash poseidon2) ∧
        s'.2.toNat = s.2.toNat + (w.leaf j).balance.toNat := by
  have hwide : (w.balances[j].setWidth 128).toNat = w.balances[j].toNat := by
    have := w.balances[j].isLt
    rw [BitVec.toNat_setWidth, Nat.mod_eq_of_lt (by omega)]
  have hguard : (w.leaf j).Padded ↔
      w.ids[j] ≠ PADDING_LEAF_ID ∨ w.balances[j] = PADDING_LEAF_BALANCE := by
    simp only [Leaf.Padded, Inputs.leaf, entry_of_lt hj]
    exact imp_iff_not_or
  rw [hguard]
  simp only [Leaf.hash, Inputs.leaf, entry_of_lt hj]
  unfold Inner.step
  dsimp only
  split
  · rename_i h
    simp [h]
  · rename_i h
    rw [not_not] at h
    cases hsum : checkedAdd s.2 (w.balances[j].setWidth 128) with
    | none =>
      rw [checkedAdd_eq_none, hwide] at hsum
      have := s'.2.isLt
      simp only [reduceCtorEq, false_iff]
      rintro ⟨-, -, h'⟩
      omega
    | some sum =>
      rw [checkedAdd_eq_some, hwide] at hsum
      rw [Except.ok.injEq, Prod.ext_iff, ← hsum, BitVec.toNat_inj]
      simp only [h, true_and]
      exact and_congr eq_comm eq_comm

/-- What the loop has established after `j` customers. -/
structure Inner.Progress (poseidon2 : List Fr → Fr) (w : Inner.Inputs B) (j : Nat)
    (s : Vector Fr B × U128) : Prop where
  padded : ∀ i < j, (w.leaf i).Padded
  leaves : ∀ i < j, entry 0 s.1 i = (w.leaf i).hash poseidon2
  sum : s.2.toNat = total w.leaf j

theorem Inner.progress_zero : Inner.Progress poseidon2 w 0 (Vector.replicate B 0, 0) :=
  ⟨by simp, by simp, rfl⟩

theorem Inner.progress_step {j : Nat} {hj : j < B} {s s' : Vector Fr B × U128}
    (hs : Inner.Progress poseidon2 w j s) (h : Inner.step poseidon2 w j hj s = .ok s') :
    Inner.Progress poseidon2 w (j + 1) s' := by
  obtain ⟨hpadded, hleaves, hsum⟩ := Inner.step_eq_ok.mp h
  refine ⟨fun i hi => ?_, fun i hi => ?_, by rw [hsum, hs.sum, total_succ]⟩
  · rcases Nat.lt_succ_iff_lt_or_eq.mp hi with hi | rfl
    · exact hs.padded i hi
    · exact hpadded
  · rw [hleaves, entry_set]
    split
    · rename_i heq
      rw [heq]
    · exact hs.leaves i (by omega)

/-- The loop ends when no padding identifier has a balance and the sum fits. -/
theorem Inner.exists_progress (hpadded : ∀ i < B, (w.leaf i).Padded)
    (hsum : total w.leaf B < 2 ^ 128) :
    ∃ s, forRange B (Vector.replicate B 0, 0) (Inner.step poseidon2 w) = .ok s ∧
      Inner.Progress poseidon2 w B s := by
  refine forRange_total Inner.progress_zero fun j hj s hs => ?_
  have hmono : total w.leaf (j + 1) ≤ total w.leaf B :=
    Finset.sum_le_sum_of_subset (Finset.range_subset_range.mpr hj)
  have hnext : (BitVec.ofNat 128 (total w.leaf (j + 1))).toNat = total w.leaf (j + 1) := by
    rw [BitVec.toNat_ofNat, Nat.mod_eq_of_lt (by omega)]
  have hstep : Inner.step poseidon2 w j hj s =
      .ok (s.1.set j ((w.leaf j).hash poseidon2), BitVec.ofNat 128 (total w.leaf (j + 1))) :=
    Inner.step_eq_ok.mpr ⟨hpadded j hj, rfl, by rw [hnext, total_succ, hs.sum]⟩
  exact ⟨_, hstep, Inner.progress_step hs hstep⟩

/-- **What the inner circuit says about a batch.** -/
structure Inner.Satisfied (poseidon2 : List Fr → Fr) (w : Inner.Inputs B) (d : Nat) : Prop where
  padded : ∀ i < B, (w.leaf i).Padded
  sum_lt : total w.leaf B < 2 ^ 128
  subroot : w.subroot = MerkleTree.root (hash2 poseidon2) (fun i => (w.leaf i).hash poseidon2) d
  subtotal : w.subtotal = frOfNat (total w.leaf B)

/-- **The inner circuit accepts exactly the batches that it describes.** -/
theorem Inner.main_eq_ok [NeZero B] {d : Nat} (hB : B = 2 ^ d) :
    Inner.main poseidon2 w = .ok () ↔ Inner.Satisfied poseidon2 w d := by
  have hend : ∀ s, Inner.Progress poseidon2 w B s → subtreeRoot poseidon2 s.1 =
      MerkleTree.root (hash2 poseidon2) (fun i => (w.leaf i).hash poseidon2) d := fun s hs => by
    rw [subtreeRoot_eq hB]
    exact MerkleTree.root_congr _ d fun i hi => hs.leaves i (by omega)
  unfold Inner.main
  constructor
  · intro h
    cases hloop : forRange B (Vector.replicate B 0, 0) (Inner.step poseidon2 w) with
    | error reason =>
      rw [hloop] at h
      cases h
    | ok s =>
      have hs : Inner.Progress poseidon2 w B s := forRange_invariant Inner.progress_zero
        (fun j hj s s' hs hstep => Inner.progress_step hs hstep) hloop
      rw [hloop] at h
      dsimp only at h
      split at h
      · cases h
      split at h
      · cases h
      rename_i hroot hsub
      refine ⟨hs.padded, hs.sum ▸ s.2.isLt, ?_, by rw [not_not.mp hsub, hs.sum]⟩
      rw [← not_not.mp hroot, hend s hs]
  · rintro ⟨hpadded, hsum, hroot, hsub⟩
    obtain ⟨s, hloop, hs⟩ := @Inner.exists_progress poseidon2 _ _ hpadded hsum
    rw [hloop]
    dsimp only
    rw [hend s hs, hroot, hsub, hs.sum, if_neg (not_not.mpr rfl), if_neg (not_not.mpr rfl)]

end Inner

/-! ## What the aggregator accepts -/

section Agg
variable {poseidon2 : List Fr → Fr} {verify : Verifier} {K : Nat} {innerVk : Vector Fr VK_LEN}
  {keyHash : Fr} {proofs : Vector (Vector Fr PROOF_LEN) K}
  {pubInputs : Vector (Vector Fr INNER_PUB_LEN) K}

/-- The three public inputs are all there is. -/
theorem publicInputs_ext {pubs pubs' : Vector Fr INNER_PUB_LEN}
    (hslot : pubs[SLOT_IDX] = pubs'[SLOT_IDX]) (hsubroot : pubs[SUBROOT_IDX] = pubs'[SUBROOT_IDX])
    (hsubtotal : pubs[SUBTOTAL_IDX] = pubs'[SUBTOTAL_IDX]) : pubs = pubs' := by
  refine Vector.ext fun i hi => ?_
  have hcases : i = 0 ∨ i = 1 ∨ i = 2 := by
    rw [INNER_PUB_LEN] at hi
    omega
  obtain rfl | rfl | rfl := hcases
  · exact hslot
  · exact hsubroot
  · exact hsubtotal

/-- The public inputs of one slot. -/
def slot (pubInputs : Vector (Vector Fr INNER_PUB_LEN) K) (k : Nat) : Vector Fr INNER_PUB_LEN :=
  entry (Vector.replicate INNER_PUB_LEN 0) pubInputs k

/-- The sum of the first `n` subtotals, each cast to 128 bits. -/
def castTotal (pubInputs : Vector (Vector Fr INNER_PUB_LEN) K) (n : Nat) : Nat :=
  ∑ k ∈ Finset.range n, (slot pubInputs k)[SUBTOTAL_IDX].val % 2 ^ 128

theorem castTotal_succ (n : Nat) :
    castTotal pubInputs (n + 1) =
      castTotal pubInputs n + (slot pubInputs n)[SUBTOTAL_IDX].val % 2 ^ 128 :=
  Finset.sum_range_succ _ n

/-- The proof of slot `k` is accepted and attests that slot. -/
def Agg.SlotAccepted (verify : Verifier) (innerVk : Vector Fr VK_LEN) (keyHash : Fr)
    (proofs : Vector (Vector Fr PROOF_LEN) K) (pubInputs : Vector (Vector Fr INNER_PUB_LEN) K)
    (k : Nat) : Prop :=
  (slot pubInputs k)[SLOT_IDX] = frOfNat k ∧
    verify innerVk (entry (Vector.replicate PROOF_LEN 0) proofs k) (slot pubInputs k) keyHash = true

theorem Agg.step_eq_ok {k : Nat} {hk : k < K} {s s' : Vector Fr K × U128} :
    Agg.step verify innerVk keyHash proofs pubInputs k hk s = .ok s' ↔
      Agg.SlotAccepted verify innerVk keyHash proofs pubInputs k ∧
        s'.1 = s.1.set k (slot pubInputs k)[SUBROOT_IDX] ∧
        s'.2.toNat = s.2.toNat + (slot pubInputs k)[SUBTOTAL_IDX].val % 2 ^ 128 := by
  simp only [Agg.SlotAccepted, slot, entry_of_lt hk]
  unfold Agg.step
  dsimp only
  split
  · rename_i hslot
    simp only [reduceCtorEq, false_iff]
    rintro ⟨⟨h, -⟩, -⟩
    exact hslot h
  split
  · rename_i hverify
    simp [hverify]
  rename_i hslot hverify
  rw [not_not] at hslot
  rw [Bool.not_eq_false] at hverify
  cases hsum : checkedAdd s.2 (BitVec.ofNat 128 pubInputs[k][SUBTOTAL_IDX].val) with
  | none =>
    rw [checkedAdd_eq_none, BitVec.toNat_ofNat] at hsum
    have := s'.2.isLt
    simp only [reduceCtorEq, false_iff]
    rintro ⟨-, -, h'⟩
    omega
  | some sum =>
    rw [checkedAdd_eq_some, BitVec.toNat_ofNat] at hsum
    rw [Except.ok.injEq, Prod.ext_iff, ← hsum, BitVec.toNat_inj]
    simp only [hslot, hverify, true_and]
    exact and_congr eq_comm eq_comm

/-- What the loop has established after `k` slots. -/
structure Agg.Progress (verify : Verifier) (innerVk : Vector Fr VK_LEN) (keyHash : Fr)
    (proofs : Vector (Vector Fr PROOF_LEN) K) (pubInputs : Vector (Vector Fr INNER_PUB_LEN) K)
    (k : Nat) (s : Vector Fr K × U128) : Prop where
  accepted : ∀ i < k, Agg.SlotAccepted verify innerVk keyHash proofs pubInputs i
  subroots : ∀ i < k, entry 0 s.1 i = (slot pubInputs i)[SUBROOT_IDX]
  sum : s.2.toNat = castTotal pubInputs k

theorem Agg.progress_zero :
    Agg.Progress verify innerVk keyHash proofs pubInputs 0 (Vector.replicate K 0, 0) :=
  ⟨by simp, by simp, rfl⟩

theorem Agg.progress_step {k : Nat} {hk : k < K} {s s' : Vector Fr K × U128}
    (hs : Agg.Progress verify innerVk keyHash proofs pubInputs k s)
    (h : Agg.step verify innerVk keyHash proofs pubInputs k hk s = .ok s') :
    Agg.Progress verify innerVk keyHash proofs pubInputs (k + 1) s' := by
  obtain ⟨haccepted, hsubroots, hsum⟩ := Agg.step_eq_ok.mp h
  refine ⟨fun i hi => ?_, fun i hi => ?_, by rw [hsum, hs.sum, castTotal_succ]⟩
  · rcases Nat.lt_succ_iff_lt_or_eq.mp hi with hi | rfl
    · exact hs.accepted i hi
    · exact haccepted
  · rw [hsubroots, entry_set]
    split
    · rename_i heq
      rw [heq]
    · exact hs.subroots i (by omega)

theorem Agg.exists_progress
    (haccepted : ∀ k < K, Agg.SlotAccepted verify innerVk keyHash proofs pubInputs k)
    (hsum : castTotal pubInputs K < 2 ^ 128) :
    ∃ s, forRange K (Vector.replicate K 0, 0)
        (Agg.step verify innerVk keyHash proofs pubInputs) = .ok s ∧
      Agg.Progress verify innerVk keyHash proofs pubInputs K s := by
  refine forRange_total Agg.progress_zero fun k hk s hs => ?_
  have hmono : castTotal pubInputs (k + 1) ≤ castTotal pubInputs K :=
    Finset.sum_le_sum_of_subset (Finset.range_subset_range.mpr hk)
  have hnext : (BitVec.ofNat 128 (castTotal pubInputs (k + 1))).toNat =
      castTotal pubInputs (k + 1) := by
    rw [BitVec.toNat_ofNat, Nat.mod_eq_of_lt (by omega)]
  have hstep : Agg.step verify innerVk keyHash proofs pubInputs k hk s =
      .ok (s.1.set k (slot pubInputs k)[SUBROOT_IDX],
        BitVec.ofNat 128 (castTotal pubInputs (k + 1))) :=
    Agg.step_eq_ok.mpr ⟨haccepted k hk, rfl, by rw [hnext, castTotal_succ, hs.sum]⟩
  exact ⟨_, hstep, Agg.progress_step hs hstep⟩

/-- **What the aggregator says about its slots.** -/
structure Agg.Satisfied (poseidon2 : List Fr → Fr) (verify : Verifier) (pinned : Fr)
    (innerVk : Vector Fr VK_LEN) (proofs : Vector (Vector Fr PROOF_LEN) K)
    (pubInputs : Vector (Vector Fr INNER_PUB_LEN) K) (d : Nat) (outputs : Fr × Fr × Fr) :
    Prop where
  key : Agg.vkHash poseidon2 innerVk = pinned
  accepted : ∀ k < K, Agg.SlotAccepted verify innerVk pinned proofs pubInputs k
  sum_lt : castTotal pubInputs K < 2 ^ 128
  outputs : outputs = (pinned,
    MerkleTree.root (hash2 poseidon2) (fun k => (slot pubInputs k)[SUBROOT_IDX]) d,
    frOfNat (castTotal pubInputs K))

/-- **The aggregator accepts exactly the slots that it describes.** -/
theorem Agg.main_eq_ok [NeZero K] {d : Nat} (hK : K = 2 ^ d) {pinned contextHash : Fr}
    {outputs : Fr × Fr × Fr} :
    Agg.main poseidon2 verify pinned contextHash innerVk proofs pubInputs = .ok outputs ↔
      Agg.Satisfied poseidon2 verify pinned innerVk proofs pubInputs d outputs := by
  have hend : ∀ s, Agg.Progress verify innerVk pinned proofs pubInputs K s →
      (pinned, subtreeRoot poseidon2 s.1, frOfNat s.2.toNat) = (pinned,
        MerkleTree.root (hash2 poseidon2) (fun k => (slot pubInputs k)[SUBROOT_IDX]) d,
        frOfNat (castTotal pubInputs K)) := fun s hs => by
    rw [subtreeRoot_eq hK, hs.sum,
      MerkleTree.root_congr _ d fun i hi => hs.subroots i (by omega)]
  unfold Agg.main
  dsimp only
  constructor
  · intro h
    split at h
    · cases h
    rename_i hpin
    rw [not_not] at hpin
    rw [hpin] at h
    cases hloop : forRange K (Vector.replicate K 0, 0)
        (Agg.step verify innerVk pinned proofs pubInputs) with
    | error reason =>
      rw [hloop] at h
      cases h
    | ok s =>
      have hs : Agg.Progress verify innerVk pinned proofs pubInputs K s :=
        forRange_invariant Agg.progress_zero
          (fun k hk s s' hs hstep => Agg.progress_step hs hstep) hloop
      rw [hloop] at h
      exact ⟨hpin, hs.accepted, hs.sum ▸ s.2.isLt, (Except.ok.inj h).symm.trans (hend s hs)⟩
  · rintro ⟨hpin, haccepted, hsum, rfl⟩
    obtain ⟨s, hloop, hs⟩ := Agg.exists_progress haccepted hsum
    rw [hpin, if_neg (not_not.mpr rfl), hloop]
    exact congrArg Except.ok (hend s hs)

end Agg

end ZkPoR.Circuit
