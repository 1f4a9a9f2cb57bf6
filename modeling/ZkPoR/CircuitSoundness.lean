import ZkPoR.Circuits
import ZkPoR.Poseidon2

/-! # What a satisfied aggregator proves

Soundness composes the two circuits through the public inputs.  The hash of the key pins
the inner circuit, since without a collision equal roots have equal leaves.  The
verifier then gives one satisfied batch for each slot, the slot number keeps the
batches apart, and the batches one after the other are the leaves of the whole
tree.  No bound on the shape is needed: an overflow refuses the witness, a sum of
128 bits is below the modulus, and so no cast loses anything.
-/
namespace ZkPoR.Circuit
open CheckedInt BoundedLoop

/-! ## The pinned key -/

section Key
variable {poseidon2 : List Fr → Fr}

/-- Everything that the hash of a key hashes. -/
def keyInputs (poseidon2 : List Fr → Fr) (key : Vector Fr VK_LEN) : Set (List Fr) :=
  {x | ∃ q ∈ MerkleTree.treePairs (hash2 poseidon2) (entry 0 (Agg.padded key)) 7, x = [q.1, q.2]}

theorem entry_padded (key : Vector Fr VK_LEN) {i : Nat} (hi : i < VK_LEN) :
    entry 0 (Agg.padded key) i = entry 0 key i := by
  refine fold_invariant (n := VK_LEN)
    (P := fun j padded => ∀ i, i < j → entry 0 padded i = entry 0 key i) (by simp)
    (fun j hj padded ih i hi => ?_) i hi
  rw [entry_set]
  split
  · rename_i h
    rw [h, entry_of_lt hj]
  · exact ih i (by omega)

/-- Without a collision, the hash of a key names the key. -/
theorem vkHash_injOn {S : Set (List Fr)} (hS : Set.InjOn poseidon2 S) {key key' : Vector Fr VK_LEN}
    (hkey : keyInputs poseidon2 key ⊆ S) (hkey' : keyInputs poseidon2 key' ⊆ S)
    (h : Agg.vkHash poseidon2 key = Agg.vkHash poseidon2 key') : key = key' := by
  have hwidth : VK_COMMIT_WIDTH = 2 ^ 7 := rfl
  have hinj : Set.InjOn (fun q : Fr × Fr => hash2 poseidon2 q.1 q.2)
      {q | [q.1, q.2] ∈ S} := by
    rintro ⟨a, b⟩ hab ⟨a', b'⟩ hab' heq
    have hlist := hS hab hab' heq
    simp only [List.cons.injEq, and_true] at hlist
    rw [hlist.1, hlist.2]
  rw [Agg.vkHash, Agg.vkHash, subtreeRoot_eq hwidth, subtreeRoot_eq hwidth] at h
  refine Vector.ext fun i hi => ?_
  have hleaf := MerkleTree.leaf_eq_of_root_eq hinj (fun q hq => hkey ⟨q, hq, rfl⟩)
    (fun q hq => hkey' ⟨q, hq, rfl⟩) h (hi.trans (by decide))
  rwa [entry_padded key hi, entry_padded key' hi, entry_of_lt hi, entry_of_lt hi] at hleaf

end Key

/-! ## Soundness -/

section Soundness
variable {poseidon2 : List Fr → Fr} {verify : Verifier} {shape : Shape}

/-- The public inputs, in the order of the parameters. -/
def Inner.Inputs.publicInputs {B : Nat} (w : Inner.Inputs B) : Vector Fr INNER_PUB_LEN :=
  #v[w.batchSlot, w.subroot, w.subtotal]

/-- Under this key, the verifier accepts only proofs of satisfied inner circuits. -/
def VerifierSound (poseidon2 : List Fr → Fr) (verify : Verifier) (shape : Shape)
    (key : Vector Fr VK_LEN) : Prop :=
  ∀ proof pubs, verify key proof pubs (Agg.vkHash poseidon2 key) = true →
    ∃ w : Inner.Inputs shape.b, w.publicInputs = pubs ∧ Inner.main poseidon2 w = .ok ()

/-- The leaf at one position. -/
def leafAt {n : Nat} (leaves : Vector Leaf n) (i : Nat) : Leaf := entry ⟨0, 0, 0⟩ leaves i

/-- **What an accepted aggregation is about.**  The leaves are those of the whole
tree, in index order; the leaves of slot `k` are the block from `k * b` on. -/
structure Aggregates (poseidon2 : List Fr → Fr) (shape : Shape)
    (pubInputs : Vector (Vector Fr INNER_PUB_LEN) shape.k) (finalRoot l : Fr)
    (leaves : Vector Leaf (shape.k * shape.b)) : Prop where
  sum : l.val = total (leafAt leaves) (shape.k * shape.b)
  root : finalRoot = MerkleTree.root (hash2 poseidon2)
    (fun i => (leafAt leaves i).hash poseidon2) shape.depth
  padded : ∀ leaf ∈ leaves, leaf.id = 0 → leaf.balance = 0
  slots : ∀ k < shape.k, slot pubInputs k = #v[frOfNat k,
    MerkleTree.root (hash2 poseidon2)
      (fun j => (leafAt leaves (k * shape.b + j)).hash poseidon2) shape.batchDepth,
    frOfNat (total (fun j => leafAt leaves (k * shape.b + j)) shape.b)]

theorem lt_frModulus : 2 ^ 128 < frModulus := by decide

/-- The batches of all slots, one after the other. -/
def gather (shape : Shape) (w : Nat → Inner.Inputs shape.b) : Vector Leaf (shape.k * shape.b) :=
  Vector.ofFn fun i => (w (i.val / shape.b)).leaf (i.val % shape.b)

theorem leafAt_gather (w : Nat → Inner.Inputs shape.b) {k j : Nat} (hk : k < shape.k)
    (hj : j < shape.b) : leafAt (gather shape w) (k * shape.b + j) = (w k).leaf j := by
  have hlt : k * shape.b + j < shape.k * shape.b :=
    calc k * shape.b + j < k * shape.b + shape.b := by omega
      _ = (k + 1) * shape.b := by ring
      _ ≤ shape.k * shape.b := Nat.mul_le_mul_right _ hk
  rw [leafAt, gather, entry_ofFn hlt]
  dsimp only
  rw [Nat.mul_comm, Nat.mul_add_div (by omega), Nat.div_eq_of_lt hj, Nat.add_zero,
    Nat.mul_add_mod, Nat.mod_eq_of_lt hj]

theorem total_congr {leaf leaf' : Nat → Leaf} {n : Nat} (h : ∀ i < n, leaf i = leaf' i) :
    total leaf n = total leaf' n :=
  Finset.sum_congr rfl fun i hi => by rw [h i (Finset.mem_range.mp hi)]

/-- Accepted slots whose proofs are those of satisfied inner circuits aggregate
the batches of these circuits. -/
theorem aggregates_gather {pinned : Fr} {innerVk : Vector Fr VK_LEN}
    {proofs : Vector (Vector Fr PROOF_LEN) shape.k}
    {pubInputs : Vector (Vector Fr INNER_PUB_LEN) shape.k} {vkHash finalRoot l : Fr}
    (h : Agg.Satisfied poseidon2 verify pinned innerVk proofs pubInputs shape.slotDepth
      (vkHash, finalRoot, l)) {w : Nat → Inner.Inputs shape.b}
    (hpublic : ∀ k < shape.k, (w k).publicInputs = slot pubInputs k)
    (hw : ∀ k < shape.k, Inner.Satisfied poseidon2 (w k) shape.batchDepth) :
    Aggregates poseidon2 shape pubInputs finalRoot l (gather shape w) := by
  have hb := shape.b_eq
  have hk := shape.k_eq
  have hsubroot : ∀ k < shape.k, (slot pubInputs k)[SUBROOT_IDX] = MerkleTree.root (hash2 poseidon2)
      (fun j => (leafAt (gather shape w) (k * shape.b + j)).hash poseidon2) shape.batchDepth := by
    intro k hlt
    rw [← hpublic k hlt]
    refine (hw k hlt).subroot.trans (MerkleTree.root_congr _ _ fun j hj => ?_)
    rw [leafAt_gather w hlt (by omega)]
  have htotal : ∀ k < shape.k,
      total (fun j => leafAt (gather shape w) (k * shape.b + j)) shape.b =
        total (w k).leaf shape.b :=
    fun k hlt => total_congr fun j hj => leafAt_gather w hlt hj
  have hsubtotal : ∀ k < shape.k, (slot pubInputs k)[SUBTOTAL_IDX] =
      frOfNat (total (fun j => leafAt (gather shape w) (k * shape.b + j)) shape.b) := by
    intro k hlt
    rw [← hpublic k hlt, htotal k hlt]
    exact (hw k hlt).subtotal
  -- no subtotal is reduced: its cast is the exact sum of the batch
  have hcast : castTotal pubInputs shape.k =
      total (leafAt (gather shape w)) (shape.k * shape.b) := by
    rw [total_mul]
    refine Finset.sum_congr rfl fun k hmem => ?_
    have hlt := Finset.mem_range.mp hmem
    have hsum := (hw k hlt).sum_lt
    rw [hsubtotal k hlt, htotal k hlt, frOfNat_val (hsum.trans lt_frModulus), Nat.mod_eq_of_lt hsum]
  obtain ⟨-, houtputs⟩ := Prod.mk.inj h.outputs
  obtain ⟨hroot, hl⟩ := Prod.mk.inj houtputs
  refine ⟨?_, ?_, fun leaf hmem => ?_, fun k hlt => ?_⟩
  · rw [hl, frOfNat_val (h.sum_lt.trans lt_frModulus), hcast]
  · rw [hroot, Shape.depth, ← MerkleTree.root_of_roots]
    refine MerkleTree.root_congr _ _ fun k hlt => ?_
    rw [hsubroot k (by omega), ← hb]
  · obtain ⟨i, hi, rfl⟩ := Vector.getElem_of_mem hmem
    rw [gather, Vector.getElem_ofFn]
    have hdiv : i / shape.b < shape.k := Nat.div_lt_of_lt_mul (by rwa [Nat.mul_comm])
    exact (hw _ hdiv).padded _ (Nat.mod_lt _ (NeZero.pos shape.b))
  · exact publicInputs_ext (h.accepted k hlt).1 (hsubroot k hlt) (hsubtotal k hlt)

/-- **Circuit soundness.**  Among the inputs `S` the sponge has no collision, and
under the pinned key the verifier accepts only proofs of satisfied inner circuits.
Then an accepted aggregation is about one leaf for each position of the tree: its
root is their root, and `L` is the exact sum of their balances. -/
theorem circuit_soundness {S : Set (List Fr)} (hS : Set.InjOn poseidon2 S)
    {pinnedKey innerVk : Vector Fr VK_LEN} (hpinned : keyInputs poseidon2 pinnedKey ⊆ S)
    (hinnerVk : keyInputs poseidon2 innerVk ⊆ S)
    (hverify : VerifierSound poseidon2 verify shape pinnedKey) {contextHash : Fr}
    {proofs : Vector (Vector Fr PROOF_LEN) shape.k}
    {pubInputs : Vector (Vector Fr INNER_PUB_LEN) shape.k} {vkHash finalRoot l : Fr}
    (h : Agg.main poseidon2 verify (Agg.vkHash poseidon2 pinnedKey) contextHash innerVk proofs
      pubInputs = .ok (vkHash, finalRoot, l)) :
    ∃ leaves, Aggregates poseidon2 shape pubInputs finalRoot l leaves := by
  have hagg := (Agg.main_eq_ok shape.k_eq).mp h
  obtain rfl : innerVk = pinnedKey := vkHash_injOn hS hinnerVk hpinned hagg.key
  have hbatch : ∀ k, ∃ w : Inner.Inputs shape.b, k < shape.k →
      w.publicInputs = slot pubInputs k ∧ Inner.main poseidon2 w = .ok () := by
    intro k
    by_cases hk : k < shape.k
    · obtain ⟨w, hw⟩ := hverify _ _ (hagg.accepted k hk).2
      exact ⟨w, fun _ => hw⟩
    · exact ⟨⟨0, 0, 0, Vector.replicate _ 0, Vector.replicate _ 0, Vector.replicate _ 0⟩,
        fun h => absurd h hk⟩
  choose w hw using hbatch
  exact ⟨gather shape w, aggregates_gather hagg (fun k hk => (hw k hk).1)
    fun k hk => (Inner.main_eq_ok shape.b_eq).mp (hw k hk).2⟩

end Soundness

/-! ## A sample aggregation

Two batches of two customers under a key of zeros, with a verifier whose proofs
spell the private inputs.
-/

def sampleShape : Shape where
  b := 2
  k := 2
  two_le_b := by decide
  isPowerOfTwo_b := ⟨1, rfl⟩
  two_le_k := by decide
  isPowerOfTwo_k := ⟨1, rfl⟩
  capacity_lt := by decide

def sampleKey : Vector Fr VK_LEN := Vector.replicate VK_LEN 0

/-- The inner inputs of a sample proof: two identifiers, two balances, two salts. -/
def sampleInputs (proof : Vector Fr PROOF_LEN) (pubs : Vector Fr INNER_PUB_LEN) :
    Inner.Inputs sampleShape.b where
  batchSlot := pubs.get SLOT_IDX
  subroot := pubs.get SUBROOT_IDX
  subtotal := pubs.get SUBTOTAL_IDX
  ids := #v[entry 0 proof 0, entry 0 proof 1]
  balances := #v[BitVec.ofNat 64 (entry 0 proof 2).val, BitVec.ofNat 64 (entry 0 proof 3).val]
  salts := #v[entry 0 proof 4, entry 0 proof 5]

def sampleVerifier : Verifier := fun key proof pubs _ =>
  decide (key = sampleKey ∧ Inner.main Poseidon2.hash (sampleInputs proof pubs) = .ok ())

def sampleProof (privateInputs : List Fr) : Vector Fr PROOF_LEN :=
  Vector.ofFn fun i => privateInputs.getD i 0

def sampleProofs : Vector (Vector Fr PROOF_LEN) sampleShape.k :=
  #v[sampleProof [11, 12, 100, 200, 5, 6], sampleProof [13, 0, 300, 0, 7, 8]]

/-- The public inputs of one sample batch. -/
def samplePublic (k : Fr) (proof : Vector Fr PROOF_LEN) (sum : Fr) : Vector Fr INNER_PUB_LEN :=
  let w := sampleInputs proof (Vector.replicate INNER_PUB_LEN 0)
  #v[k, hash2 Poseidon2.hash ((w.leaf 0).hash Poseidon2.hash) ((w.leaf 1).hash Poseidon2.hash), sum]

def samplePubInputs : Vector (Vector Fr INNER_PUB_LEN) sampleShape.k :=
  #v[samplePublic 0 sampleProofs[0] 300, samplePublic 1 sampleProofs[1] 300]

/-- The final root of the sample. -/
def sampleRoot : Fr := MerkleTree.root (hash2 Poseidon2.hash)
  (fun k => (slot samplePubInputs k).get SUBROOT_IDX) sampleShape.slotDepth

/-- The sample verifier reads no key hash. -/
theorem sampleVerifier_keyHash (key : Vector Fr VK_LEN) (proof : Vector Fr PROOF_LEN)
    (pubs : Vector Fr INNER_PUB_LEN) (hash hash' : Fr) :
    sampleVerifier key proof pubs hash = sampleVerifier key proof pubs hash' := rfl

theorem sample_accepted : ∀ k < sampleShape.k, Agg.SlotAccepted sampleVerifier sampleKey
    (Agg.vkHash Poseidon2.hash sampleKey) sampleProofs samplePubInputs k := by
  have h : ∀ k < 2, (slot samplePubInputs k)[SLOT_IDX] = frOfNat k ∧
      sampleVerifier sampleKey (entry (Vector.replicate PROOF_LEN 0) sampleProofs k)
        (slot samplePubInputs k) 0 = true := by decide +kernel
  exact fun k hk => ⟨(h k hk).1, (sampleVerifier_keyHash _ _ _ _ _).trans (h k hk).2⟩

theorem sample_run : Agg.main Poseidon2.hash sampleVerifier (Agg.vkHash Poseidon2.hash sampleKey) 0
    sampleKey sampleProofs samplePubInputs =
      .ok (Agg.vkHash Poseidon2.hash sampleKey, sampleRoot, 600) := by
  have hsum : castTotal samplePubInputs sampleShape.k = 600 := by decide +kernel
  refine (Agg.main_eq_ok sampleShape.k_eq).mpr ⟨rfl, sample_accepted, ?_, ?_⟩
  · rw [hsum]
    norm_num
  · rw [hsum]
    rfl

theorem sampleVerifier_sound :
    VerifierSound Poseidon2.hash sampleVerifier sampleShape sampleKey := by
  intro proof pubs h
  exact ⟨sampleInputs proof pubs, publicInputs_ext rfl rfl rfl, (of_decide_eq_true h).2⟩

/-- The values of the tree over a key of zeros, by height. -/
def sampleKeyNode : Nat → Fr := MerkleTree.uniform (hash2 Poseidon2.hash) 0

theorem sampleKeyNode_nodup : ((List.range 8).map sampleKeyNode).Nodup := by decide +kernel

theorem keyInputs_sample {x : List Fr} (hx : x ∈ keyInputs Poseidon2.hash sampleKey) :
    ∃ k < 7, x = [sampleKeyNode k, sampleKeyNode k] := by
  have hzero : ∀ i < 2 ^ 7, entry 0 (Agg.padded sampleKey) i = 0 := by decide +kernel
  obtain ⟨q, hq, rfl⟩ := hx
  obtain ⟨k, hk, rfl⟩ := MerkleTree.treePairs_uniform _ hzero hq
  exact ⟨k, hk, rfl⟩

theorem injOn_sampleKey : Set.InjOn Poseidon2.hash (keyInputs Poseidon2.hash sampleKey) := by
  intro x hx y hy h
  obtain ⟨i, hi, rfl⟩ := keyInputs_sample hx
  obtain ⟨j, hj, rfl⟩ := keyInputs_sample hy
  have hnode : sampleKeyNode (i + 1) = sampleKeyNode (j + 1) := h
  have hij := List.inj_on_of_nodup_map sampleKeyNode_nodup (List.mem_range.mpr (by omega))
    (List.mem_range.mpr (by omega)) hnode
  rw [Nat.succ_injective hij]

/-- The sample aggregation is about four leaves whose balances add up to 600. -/
theorem circuit_soundness_sample :
    ∃ leaves, Aggregates Poseidon2.hash sampleShape samplePubInputs sampleRoot 600 leaves :=
  circuit_soundness injOn_sampleKey subset_rfl subset_rfl sampleVerifier_sound sample_run

end ZkPoR.Circuit
