import ZkPoR.GeneratorAgreement
import ZkPoR.SdkTree

/-! # One tree in four programs

The tools, the contract, the SDK and the circuits fold the same tree and walk the
same paths.  Each fold and each walk is the one of `MerkleTree`, so the agreements
are read off its lemmas: the law of a path (`merklePath_law`), the walkers
(`pathWalkers_agree`), and the folds (`treeFolds_agree`).
-/
namespace ZkPoR
open CheckedInt BoundedLoop

section
variable {poseidon2 : List Fr → Fr}

/-! ## The law of a path -/

/-- The walk of the tools refuses every other length and every other position. -/
theorem rootFromPath_eq_error {leaf : U256} {index : U64} {siblings : List U256} {depth : Nat}
    (h : siblings.length ≠ depth ∨ 2 ^ depth ≤ index.toNat) :
    ∃ reason, Package.rootFromPath poseidon2 leaf index siblings depth = .error reason := by
  cases hwalk : Package.rootFromPath poseidon2 leaf index siblings depth with
  | error reason => exact ⟨reason, rfl⟩
  | ok out =>
    obtain ⟨hlength, -, hindex, -⟩ := Package.rootFromPath_eq_ok.mp hwalk
    rcases h with h | h
    · exact absurd hlength h
    · omega

/-- The leaves of a tree, by position. -/
def leafAt (leaves : List U256) (i : Nat) : U256 := leaves.getD i 0

theorem leafAt_eq {leaves : List U256} {i : Nat} (h : i < leaves.length) :
    leaves[i]? = some (leafAt leaves i) := by
  rw [leafAt, List.getD_eq_getElem?_getD, List.getElem?_eq_getElem h, Option.getD_some]

/-- **The law of a path.**  The path of every leaf has one sibling for each level
and gives the root.  Where `node_hash` has no collision, no other leaf, position or
path gives the root, and other shapes give none.  A slice has fewer than `2 ^ 64`
leaves. -/
theorem merklePath_law {S : Set (U256 × U256)}
    (hS : Set.InjOn (fun q => nodeHash poseidon2 q.1 q.2) S) {d : Nat}
    {leaves : List U256} (hlength : leaves.length = 2 ^ d) (husize : leaves.length < 2 ^ 64)
    (htree : MerkleTree.treePairs (nodeHash poseidon2) (leafAt leaves) d ⊆ S) :
    ∃ root, Package.subtreeRoot poseidon2 leaves = .ok root ∧
      (∀ i < 2 ^ d, ∃ leaf path, leaves[i]? = some leaf ∧
        Package.pathInLevels (Package.treeLevels poseidon2 leaves) i = .ok path ∧
        path.length = d ∧
        Package.rootFromPath poseidon2 leaf (BitVec.ofNat 64 i) path d = .ok root) ∧
      (∀ (x : U256) (j : U64) (s : List U256),
        (∀ q ∈ MerkleTree.walkPairs (nodeHash poseidon2) x j.toNat s, q ∈ S) →
        Package.rootFromPath poseidon2 x j s d = .ok root →
          j.toNat < 2 ^ d ∧ leaves[j.toNat]? = some x ∧
          Package.pathInLevels (Package.treeLevels poseidon2 leaves) j.toNat = .ok s) ∧
      ∀ (x : U256) (j : U64) (s : List U256), s.length ≠ d ∨ 2 ^ d ≤ j.toNat →
        ∃ reason, Package.rootFromPath poseidon2 x j s d = .error reason := by
  have hdepth : d < 64 := (Nat.pow_lt_pow_iff_right Nat.one_lt_two).mp (hlength ▸ husize)
  refine ⟨_, Package.subtreeRoot_eq hlength, ?_, ?_, fun x j s => rootFromPath_eq_error⟩
  -- an honest path: the capacity fits 64 bits, so the position does
  · intro i hi
    have hindex : (BitVec.ofNat 64 i).toNat = i := by
      rw [BitVec.toNat_ofNat, Nat.mod_eq_of_lt (by omega)]
    refine ⟨_, _, leafAt_eq (by omega), Package.pathInLevels_eq hlength hi,
      MerkleTree.length_path _ d i, ?_⟩
    refine Package.rootFromPath_eq_ok.mpr ⟨MerkleTree.length_path _ d i, hdepth, ?_, ?_⟩
    · rwa [hindex]
    · rw [hindex]
      exact MerkleTree.walk_path _ hi
  -- a path that reaches the root is the honest one, since no collision is hashed
  · intro x j s hwalk h
    obtain ⟨hpath, -, hindex, hroot⟩ := Package.rootFromPath_eq_ok.mp h
    obtain ⟨hleaf, hs⟩ := MerkleTree.walk_sound hS htree hpath hindex hwalk hroot
    refine ⟨hindex, ?_, ?_⟩
    · rw [hleaf]
      exact leafAt_eq (by omega)
    · rw [hs]
      exact Package.pathInLevels_eq hlength hindex

/-- Four leaves, and the three pairs of their tree. -/
def fourLeaves : List U256 := [1, 2, 3, 4]

def fourPairs : List (U256 × U256) :=
  [(1, 2), (3, 4), (nodeHash Poseidon2.hash 1 2, nodeHash Poseidon2.hash 3 4)]

theorem injOn_fourPairs :
    Set.InjOn (fun q => nodeHash Poseidon2.hash q.1 q.2) {q | q ∈ fourPairs} := by
  have hnodup : (fourPairs.map fun q => nodeHash Poseidon2.hash q.1 q.2).Nodup := by
    decide +kernel
  intro q hq q' hq' h
  exact List.inj_on_of_nodup_map hnodup hq hq' h

theorem treePairs_four :
    MerkleTree.treePairs (nodeHash Poseidon2.hash) (leafAt fourLeaves) 2 ⊆
      {q | q ∈ fourPairs} := by
  rintro q ⟨k, j, hk, hj, rfl⟩
  have hk' : k = 0 ∨ k = 1 := by omega
  rcases hk' with rfl | rfl
  · have hj' : j = 0 ∨ j = 1 := by omega
    rcases hj' with rfl | rfl <;> simp [leafAt, fourLeaves, fourPairs]
  · obtain rfl : j = 0 := by omega
    simp [leafAt, fourLeaves, fourPairs, MerkleTree.nodeAt_succ]

/-- The path of the third of four leaves. -/
theorem merklePath_law_four :
    ∃ root path, Package.subtreeRoot Poseidon2.hash fourLeaves = .ok root ∧
      Package.pathInLevels (Package.treeLevels Poseidon2.hash fourLeaves) 2 = .ok path ∧
      Package.rootFromPath Poseidon2.hash 3 2 path 2 = .ok root := by
  obtain ⟨root, hroot, hpaths, -, -⟩ := @merklePath_law Poseidon2.hash _ injOn_fourPairs 2
    fourLeaves rfl (by decide) treePairs_four
  obtain ⟨leaf, path, hleaf, hpath, -, hwalk⟩ := hpaths 2 (by norm_num)
  cases hleaf
  exact ⟨root, path, hroot, hpath, hwalk⟩

/-! ## The three walkers -/

/-- Both walkers of the tools take one leaf and one path alike. -/
theorem sdkWalk_eq_ok {leaf root : U256} {index : U32} {siblings : List U256} {depth : Nat}
    (hleaf : frInRange leaf) (hsiblings : ∀ s ∈ siblings, frInRange s) (hpos : 1 ≤ depth)
    (hdepth : depth < 64) :
    Sdk.rootFromPath poseidon2 leaf.toNat index.toNat (siblings.map BitVec.toNat) depth =
        .ok root.toNat ↔
      Package.rootFromPath poseidon2 leaf (index.setWidth 64) siblings depth = .ok root := by
  have hindex : (index.setWidth 64).toNat = index.toNat := by
    rw [BitVec.toNat_setWidth, Nat.mod_eq_of_lt (by have := index.isLt; omega)]
  rw [Sdk.rootFromPath_eq_ok hleaf hsiblings, Package.rootFromPath_eq_ok, hindex,
    BitVec.toNat_inj]
  constructor
  · rintro ⟨-, hlength, hlt, hroot⟩
    exact ⟨hlength, hdepth, hlt, hroot⟩
  · rintro ⟨hlength, -, hlt, hroot⟩
    exact ⟨hpos, hlength, hlt, hroot⟩

/-- What the walk of the SDK returns on field elements is a value of 32 bytes. -/
theorem sdkWalk_lt {leaf : U256} {index root depth : Nat} {siblings : List U256}
    (hleaf : frInRange leaf) (hsiblings : ∀ s ∈ siblings, frInRange s)
    (h : Sdk.rootFromPath poseidon2 leaf.toNat index (siblings.map BitVec.toNat) depth =
      .ok root) : ∃ out : U256, root = out.toNat := by
  obtain ⟨-, -, -, hroot⟩ := (Sdk.rootFromPath_eq_ok hleaf hsiblings).mp h
  exact ⟨_, hroot.symm⟩

/-- The contract takes the evidence of a customer exactly when the walk of the tools
gives the root. -/
theorem inclusion_iff_rootFromPath {root : U256} {e : InclusionEvidence} (hid : frInRange e.id)
    (hcommitment : frInRange e.commitment) (hpath : ∀ s ∈ e.path, frInRange s) :
    inclusion poseidon2 root e = .ok () ↔
      e.id ≠ 0 ∧ Package.rootFromPath poseidon2 (leafHash poseidon2 e.id e.commitment)
        (e.position.setWidth 64) e.path 12 = .ok root := by
  have hindex : (e.position.setWidth 64).toNat = e.position.toNat := by
    rw [BitVec.toNat_setWidth, Nat.mod_eq_of_lt (by have := e.position.isLt; omega)]
  rw [inclusion_eq_ok, Package.rootFromPath_eq_ok, hindex]
  constructor
  · rintro ⟨hlength, hlt, hne, -, -, -, hroot⟩
    exact ⟨hne, hlength, by norm_num, hlt, hroot⟩
  · rintro ⟨hne, hlength, -, hlt, hroot⟩
    exact ⟨hlength, hlt, hne, hid, hcommitment, hpath, hroot⟩

/-- **The three walkers agree.**  On field elements the contract takes an evidence of a
customer exactly when the walk of the tools gives the root, and exactly when the walk
of the SDK does; an evidence of a padding leaf is refused.  The walks of the tools and
of the SDK have the same domain and the same value at every depth below 64. -/
theorem pathWalkers_agree :
    (∀ (root : U256) (e : InclusionEvidence), frInRange e.id → frInRange e.commitment →
      (∀ s ∈ e.path, frInRange s) →
      (e.id ≠ 0 →
        (inclusion poseidon2 root e = .ok () ↔
          Package.rootFromPath poseidon2 (leafHash poseidon2 e.id e.commitment)
            (e.position.setWidth 64) e.path 12 = .ok root) ∧
        (inclusion poseidon2 root e = .ok () ↔
          Sdk.rootFromPath poseidon2 (leafHash poseidon2 e.id e.commitment).toNat
            e.position.toNat (e.path.map BitVec.toNat) 12 = .ok root.toNat)) ∧
      (e.id = 0 → ∃ reason, inclusion poseidon2 root e = .error reason)) ∧
    ∀ (leaf : U256) (index : U32) (siblings : List U256) (depth : Nat), frInRange leaf →
      (∀ s ∈ siblings, frInRange s) → 1 ≤ depth → depth ≤ 63 →
      ((∃ out, Package.rootFromPath poseidon2 leaf (index.setWidth 64) siblings depth = .ok out) ↔
        ∃ out, Sdk.rootFromPath poseidon2 leaf.toNat index.toNat (siblings.map BitVec.toNat)
          depth = .ok out) ∧
      ∀ out out', Package.rootFromPath poseidon2 leaf (index.setWidth 64) siblings depth =
          .ok out →
        Sdk.rootFromPath poseidon2 leaf.toNat index.toNat (siblings.map BitVec.toNat) depth =
          .ok out' → out' = out.toNat := by
  constructor
  · intro root e hid hcommitment hpath
    have hcontract := @inclusion_iff_rootFromPath poseidon2 root e hid hcommitment hpath
    constructor
    · intro hne
      have hsdk := @sdkWalk_eq_ok poseidon2 (leafHash poseidon2 e.id e.commitment) root e.position
        e.path 12 (frInRange_leafHash e.id e.commitment) hpath (by norm_num) (by norm_num)
      -- both walks are the contract's, which also refuses the padding identifier
      rw [hsdk, hcontract]
      exact ⟨and_iff_right hne, and_iff_right hne⟩
    · intro hzero
      cases h : inclusion poseidon2 root e with
      | error reason => exact ⟨reason, rfl⟩
      | ok u => exact absurd hzero (hcontract.mp h).1
  · intro leaf index siblings depth hleaf hsiblings hpos hdepth
    have hagree : ∀ out : U256, _ ↔ _ := fun out =>
      @sdkWalk_eq_ok poseidon2 leaf out index siblings depth hleaf hsiblings hpos (by omega)
    refine ⟨⟨?_, ?_⟩, ?_⟩
    · rintro ⟨out, h⟩
      exact ⟨_, (hagree out).mpr h⟩
    · rintro ⟨out, h⟩
      obtain ⟨out, rfl⟩ := sdkWalk_lt hleaf hsiblings h
      exact ⟨out, (hagree out).mp h⟩
    · intro out out' h h'
      have hsdk := (hagree out).mpr h
      rw [h'] at hsdk
      exact Except.ok.inj hsdk

/-! ## The folds -/

/-- One pass of the fold of the SDK is one step of the fold of the tools. -/
theorem nextLevel_nodes {leaf : Nat → U256} (hleaf : ∀ i, frInRange (leaf i)) (k n : Nat) :
    Sdk.nextLevel poseidon2 ((Package.nodes poseidon2 leaf k (2 * n)).map BitVec.toNat) =
      .ok ((Package.nodes poseidon2 leaf (k + 1) n).map BitVec.toNat) := by
  have hcount : ((Package.nodes poseidon2 leaf k (2 * n)).map BitVec.toNat).length = 2 * n := by
    rw [List.length_map, Package.length_nodes]
  have hentry : ∀ i < 2 * n, ((Package.nodes poseidon2 leaf k (2 * n)).map BitVec.toNat)[i]? =
      some (MerkleTree.nodeAt (nodeHash poseidon2) leaf k i).toNat := by
    intro i hi
    rw [List.getElem?_map, List.getElem?_eq_getElem (by rwa [Package.length_nodes]),
      Package.getElem_nodes, Option.map_some]
  unfold Sdk.nextLevel
  rw [hcount, show (2 * n + 1) / 2 = n by omega, mapM_eq_ok
    (g := fun j => (MerkleTree.nodeAt (nodeHash poseidon2) leaf (k + 1) j).toNat)]
  · rw [Package.nodes, List.map_map]
    rfl
  · intro j hj
    have hlt := List.mem_range.mp hj
    rw [hentry (2 * j) (by omega), hentry (2 * j + 1) (by omega), MerkleTree.nodeAt_succ]
    exact Sdk.nodeHash_eq (frInRange_nodeAt hleaf _ _) (frInRange_nodeAt hleaf _ _)

theorem foldLevels_nodes {leaf : Nat → U256} (hleaf : ∀ i, frInRange (leaf i)) (k d : Nat) :
    Sdk.foldLevels poseidon2 ((Package.nodes poseidon2 leaf k (2 ^ d)).map BitVec.toNat) =
      .ok ((Package.nodes poseidon2 leaf (k + d) 1).map BitVec.toNat) := by
  induction d generalizing k with
  | zero =>
    rw [Sdk.foldLevels, List.length_map, Package.length_nodes, if_neg (by norm_num), pow_zero,
      Nat.add_zero]
  | succ d ih =>
    have hlt : 1 < 2 ^ (d + 1) := Nat.one_lt_two_pow d.succ_ne_zero
    rw [Sdk.foldLevels, List.length_map, Package.length_nodes, if_pos hlt]
    split
    · rename_i reason h
      rw [pow_succ', nextLevel_nodes hleaf] at h
      cases h
    · rename_i next h
      rw [pow_succ', nextLevel_nodes hleaf] at h
      cases h
      rw [ih, Nat.add_right_comm, Nat.add_assoc]

/-- **The fold of the SDK is the uniform tree.** -/
theorem treeRoot_eq {leaves : List U256} {d : Nat} (hd : 1 ≤ d) (h : leaves.length = 2 ^ d)
    (hleaves : ∀ leaf ∈ leaves, frInRange leaf) :
    Sdk.treeRoot poseidon2 (leaves.map BitVec.toNat) =
      .ok (MerkleTree.root (nodeHash poseidon2) (leafAt leaves) d).toNat := by
  have hleaf : ∀ i, frInRange (leafAt leaves i) := by
    intro i
    by_cases hi : i < leaves.length
    · have hget := leafAt_eq hi
      exact hleaves _ (List.mem_of_getElem? hget)
    · rw [leafAt, List.getD_eq_getElem?_getD, List.getElem?_eq_none (by omega)]
      decide
  have hpower : 2 ≤ 2 ^ d ∧ 2 ^ d &&& (2 ^ d - 1) = 0 := by
    refine ⟨?_, by rw [Nat.and_two_pow_sub_one_eq_mod, Nat.mod_self]⟩
    calc 2 = 2 ^ 1 := rfl
      _ ≤ 2 ^ d := Nat.pow_le_pow_right (by norm_num) hd
  have hfold := @foldLevels_nodes poseidon2 (leafAt leaves) hleaf 0 d
  have hnodes : Package.nodes poseidon2 (leafAt leaves) 0 (2 ^ d) = leaves := by
    rw [← h]
    exact Package.nodes_zero poseidon2 leaves
  rw [hnodes] at hfold
  rw [Sdk.treeRoot, List.length_map, h, Sdk.check_of hpower, hfold, Nat.zero_add]
  rfl

/-- The last level of a tree holds its root. -/
theorem getLast?_treeLevels {leaves : List U256} {d : Nat} (h : leaves.length = 2 ^ d) :
    (Package.treeLevels poseidon2 leaves).getLast? =
      some [MerkleTree.root (nodeHash poseidon2) (leafAt leaves) d] := by
  have hnodes : Package.nodes poseidon2 (leafAt leaves) 0 (2 ^ d) = leaves := by
    rw [← h]
    exact Package.nodes_zero poseidon2 leaves
  have hlevels := @Package.treeLevels_nodes poseidon2 (leafAt leaves) 0 d
  rw [hnodes] at hlevels
  rw [hlevels, List.getLast?_map, List.getLast?_range, if_neg d.succ_ne_zero, Option.map_some,
    Nat.add_sub_cancel, Nat.zero_add, Nat.sub_self, pow_zero]
  rfl

/-- The heap of the circuits folds the tree over the same field elements. -/
theorem ofFr_subtreeRoot {M : Nat} [NeZero M] (leaves : Vector Fr M) {d : Nat} (hM : M = 2 ^ d) :
    ofFr (Circuit.subtreeRoot poseidon2 leaves) =
      MerkleTree.root (nodeHash poseidon2) (leafAt (leaves.toList.map ofFr)) d := by
  rw [Circuit.subtreeRoot_eq hM, MerkleTree.root, MerkleTree.map_nodeAt _ (Generator.ofFr_hash2 poseidon2)]
  refine MerkleTree.root_congr _ d fun i hi => ?_
  have hlt : i < M := by omega
  rw [entry_of_lt hlt]
  simp [leafAt, hlt]

/-- **The folds agree.**  For every number of leaves `M` that is a power of two from 2
on, the heap of the circuits, the fold and the levels of the tools, and the fold of
the SDK have one root, and so has the fold over batches of any size. -/
theorem treeFolds_agree {M d : Nat} [NeZero M] (hM : M = 2 ^ d) (htwo : 2 ≤ M)
    (leaves : Vector Fr M) :
    let root := Circuit.subtreeRoot poseidon2 leaves
    let level := leaves.toList.map ofFr
    Package.subtreeRoot poseidon2 level = .ok (ofFr root) ∧
    (Package.treeLevels poseidon2 level).getLast? = some [ofFr root] ∧
    Sdk.treeRoot poseidon2 (level.map BitVec.toNat) = .ok (ofFr root).toNat ∧
    ∀ b, (∃ c, b = 2 ^ c) → b ∣ M → 2 ≤ b → b < M →
      Generator.foldedRoot poseidon2 level b = .ok (ofFr root) := by
  intro root level
  have hlength : level.length = 2 ^ d := by simp [level, hM]
  have hroot : ofFr root = MerkleTree.root (nodeHash poseidon2) (leafAt level) d :=
    ofFr_subtreeRoot leaves hM
  have hd : 1 ≤ d := by
    rcases Nat.eq_zero_or_pos d with rfl | hpos
    · omega
    · exact hpos
  rw [hroot]
  refine ⟨Package.subtreeRoot_eq hlength, getLast?_treeLevels hlength,
    treeRoot_eq hd hlength ?_, ?_⟩
  · intro leaf hmem
    obtain ⟨x, -, rfl⟩ := List.mem_map.mp hmem
    exact frInRange_ofFr x
  · rintro b ⟨c, rfl⟩ - - hlt
    have hlt' : c < d := (Nat.pow_lt_pow_iff_right Nat.one_lt_two).mp (hM ▸ hlt)
    obtain ⟨e, rfl⟩ := Nat.exists_eq_add_of_le hlt'.le
    exact Generator.foldedRoot_eq hlength

/-- Two batches of two leaves. -/
theorem treeFolds_agree_four :
    Generator.foldedRoot Poseidon2.hash [1, 2, 3, 4] 2 =
      Package.subtreeRoot Poseidon2.hash [1, 2, 3, 4] := by
  have h := @treeFolds_agree Poseidon2.hash 4 2 _ rfl (by norm_num) #v[1, 2, 3, 4]
  have hlevel : (#v[1, 2, 3, 4] : Vector Fr 4).toList.map ofFr = [1, 2, 3, 4] := by decide +kernel
  simp only [hlevel] at h
  rw [h.1, h.2.2.2 2 ⟨1, rfl⟩ (by norm_num) (by norm_num) (by norm_num)]

end
end ZkPoR
