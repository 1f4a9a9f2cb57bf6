import ZkPoR.Context
import ZkPoR.MerkleTree
import Mathlib.Data.Nat.Bitwise

/-! # The liabilities tree of the tools

The bottom-up fold, the levels of a tree, and the authentication path, as
`zkpor-package` computes them.  Over `2 ^ d` leaves the fold gives the root of
the uniform tree, the levels hold its nodes, a path read from the levels is the
path of the tree, and the walk along a path is the walk of the tree.  `RetainedTree` is
what the authority keeps of such a tree.
-/
namespace ZkPoR.Package
open CheckedInt

section Definitions
variable (poseidon2 : List Fr → Fr)

/-- One step of the bottom-up fold: each adjacent pair becomes its parent. -/
def foldLevel (level : List U256) : List U256 :=
  List.ofFn fun k : Fin (level.length / 2) =>
    have := k.isLt
    nodeHash poseidon2 level[2 * k.val] level[2 * k.val + 1]

theorem length_foldLevel (level : List U256) :
    (foldLevel poseidon2 level).length = level.length / 2 := List.length_ofFn

/-- The loop of the fold. -/
def foldDown (level : List U256) : List U256 :=
  if 1 < level.length then foldDown (foldLevel poseidon2 level) else level
termination_by level.length
decreasing_by
  rw [length_foldLevel]
  omega

/-- Root of a full binary tree over `leaves`. -/
def subtreeRoot (leaves : List U256) : Except String U256 :=
  match (foldDown poseidon2 leaves).head? with
  | none => .error "non-empty tree"
  | some root => .ok root

/-- Every level of the tree, from the leaves up to the root. -/
def treeLevels (leaves : List U256) : List (List U256) :=
  leaves :: if 1 < leaves.length then treeLevels (foldLevel poseidon2 leaves) else []
termination_by leaves.length
decreasing_by
  rw [length_foldLevel]
  omega

/-- The siblings of one node and of its ancestors, level by level. -/
def siblingsIn : List (List U256) → Nat → Except String (List U256)
  | [], _ => .ok []
  | level :: levels, index =>
    match level[index ^^^ 1]? with
    | none => .error "index out of bounds"
    | some sibling => (siblingsIn levels (index >>> 1)).map (sibling :: ·)

/-- The sibling hashes of one leaf, from the leaf level up to the level below the
root. -/
def pathInLevels (levels : List (List U256)) (globalIndex : Nat) : Except String (List U256) :=
  match levels.head? with
  | none => .error "the leaf level"
  | some leafLevel =>
    if globalIndex < leafLevel.length then
      siblingsIn levels.dropLast globalIndex
    else
      .error s!"leaf index {globalIndex} is outside a tree of {leafLevel.length} leaves"

/-- The walk from one node at `level` along the siblings. -/
def walkUp (globalIndex : U64) : Nat → U256 → List U256 → U256
  | _, node, [] => node
  | level, node, sibling :: siblings =>
    walkUp globalIndex (level + 1)
      (if globalIndex >>> level &&& 1 = 0 then nodeHash poseidon2 node sibling
        else nodeHash poseidon2 sibling node) siblings

/-- Recomputes the root from one leaf and its authentication path. -/
def rootFromPath (leaf : U256) (globalIndex : U64) (siblings : List U256) (depth : Nat) :
    Except String U256 :=
  if siblings.length ≠ depth then
    .error (s!"the path holds {siblings.length} siblings, and a tree of depth {depth} " ++
      "needs one for each level")
  else if 64 ≤ depth ∨ (1 : U64) <<< depth ≤ globalIndex then
    .error s!"leaf index {globalIndex.toNat} is outside a tree of depth {depth}"
  else
    .ok (walkUp poseidon2 globalIndex 0 leaf siblings)

end Definitions

/-! ## The fold is the tree -/

section Fold
variable {poseidon2 : List Fr → Fr} {leaf : Nat → U256}

/-- The nodes of a tree at one height, from position `0` on. -/
def nodes (poseidon2 : List Fr → Fr) (leaf : Nat → U256) (k n : Nat) : List U256 :=
  (List.range n).map (MerkleTree.nodeAt (nodeHash poseidon2) leaf k)

theorem length_nodes (k n : Nat) : (nodes poseidon2 leaf k n).length = n := by
  rw [nodes, List.length_map, List.length_range]

theorem getElem_nodes {k n i : Nat} (h : i < (nodes poseidon2 leaf k n).length) :
    (nodes poseidon2 leaf k n)[i] = MerkleTree.nodeAt (nodeHash poseidon2) leaf k i := by
  simp [nodes]

theorem nodes_zero (poseidon2 : List Fr → Fr) (leaves : List U256) :
    nodes poseidon2 (fun i => leaves.getD i 0) 0 leaves.length = leaves := by
  refine List.ext_getElem (length_nodes _ _) fun i h h' => ?_
  rw [getElem_nodes, MerkleTree.nodeAt_zero, List.getD_eq_getElem?_getD,
    List.getElem?_eq_getElem h', Option.getD_some]

/-- One step of the fold goes up one height. -/
theorem foldLevel_nodes (k n : Nat) :
    foldLevel poseidon2 (nodes poseidon2 leaf k (2 * n)) = nodes poseidon2 leaf (k + 1) n := by
  refine List.ext_getElem ?_ fun i h h' => ?_
  · rw [length_foldLevel, length_nodes, length_nodes]
    omega
  · simp only [foldLevel, List.getElem_ofFn, getElem_nodes]
    rfl

theorem foldDown_nodes (k d : Nat) :
    foldDown poseidon2 (nodes poseidon2 leaf k (2 ^ d)) = nodes poseidon2 leaf (k + d) 1 := by
  induction d generalizing k with
  | zero => rw [foldDown, length_nodes, if_neg (by norm_num), pow_zero, Nat.add_zero]
  | succ d ih =>
    have hlt : 1 < 2 ^ (d + 1) := Nat.one_lt_two_pow d.succ_ne_zero
    rw [foldDown, length_nodes, if_pos hlt, pow_succ', foldLevel_nodes, ih]
    congr 1
    ring

/-- **The fold is the uniform tree.** -/
theorem subtreeRoot_eq {leaves : List U256} {d : Nat} (h : leaves.length = 2 ^ d) :
    subtreeRoot poseidon2 leaves =
      .ok (MerkleTree.root (nodeHash poseidon2) (fun i => leaves.getD i 0) d) := by
  have hleaves := nodes_zero poseidon2 leaves
  rw [h] at hleaves
  unfold subtreeRoot
  rw [← hleaves, foldDown_nodes, hleaves, Nat.zero_add]
  rfl

theorem treeLevels_nodes (k d : Nat) :
    treeLevels poseidon2 (nodes poseidon2 leaf k (2 ^ d)) =
      (List.range (d + 1)).map fun i => nodes poseidon2 leaf (k + i) (2 ^ (d - i)) := by
  induction d generalizing k with
  | zero =>
    rw [treeLevels, length_nodes, if_neg (by norm_num)]
    rfl
  | succ d ih =>
    have hlt : 1 < 2 ^ (d + 1) := Nat.one_lt_two_pow d.succ_ne_zero
    have htail : treeLevels poseidon2 (foldLevel poseidon2 (nodes poseidon2 leaf k (2 ^ (d + 1)))) =
        (List.range (d + 1)).map fun i => nodes poseidon2 leaf (k + 1 + i) (2 ^ (d - i)) := by
      rw [pow_succ', foldLevel_nodes, ih]
    rw [treeLevels, length_nodes, if_pos hlt, htail, List.range_succ_eq_map (n := d + 1),
      List.map_cons, List.map_map]
    congr 1
    refine List.map_congr_left fun i _ => ?_
    rw [Function.comp_apply, Nat.succ_eq_add_one, Nat.add_sub_add_right]
    congr 1
    ring

/-! ## Paths -/

theorem xor_one_eq_sibling (j : Nat) : j ^^^ 1 = MerkleTree.sibling j := by
  unfold MerkleTree.sibling
  split
  · rename_i h
    rw [← Nat.even_iff] at h
    exact Nat.xor_one_of_even h
  · rename_i h
    exact Nat.xor_one_of_odd (Nat.odd_iff.mpr (by omega))

theorem sibling_lt {j n : Nat} (h : j < 2 * n) : MerkleTree.sibling j < 2 * n := by
  unfold MerkleTree.sibling
  split <;> omega

theorem siblingsIn_nodes (leaf : Nat → U256) (k d j : Nat) (hj : j < 2 ^ d) :
    siblingsIn ((List.range d).map fun i => nodes poseidon2 leaf (k + i) (2 ^ (d - i))) j =
      .ok (MerkleTree.pathFrom (nodeHash poseidon2) leaf k d j) := by
  induction d generalizing k j with
  | zero => rfl
  | succ d ih =>
    have hsibling : MerkleTree.sibling j < (nodes poseidon2 leaf k (2 ^ (d + 1))).length := by
      rw [length_nodes, pow_succ']
      exact sibling_lt (by rwa [pow_succ'] at hj)
    have htail : (List.range d).map ((fun i => nodes poseidon2 leaf (k + i) (2 ^ (d + 1 - i))) ∘
        Nat.succ) = (List.range d).map fun i => nodes poseidon2 leaf (k + 1 + i) (2 ^ (d - i)) := by
      refine List.map_congr_left fun i _ => ?_
      rw [Function.comp_apply, Nat.succ_eq_add_one, Nat.add_sub_add_right]
      congr 1
      ring
    rw [List.range_succ_eq_map, List.map_cons, List.map_map, htail, siblingsIn, Nat.add_zero,
      Nat.sub_zero, xor_one_eq_sibling, List.getElem?_eq_getElem hsibling, getElem_nodes]
    dsimp only
    rw [Nat.shiftRight_one, ih (k + 1) (j / 2) (by rw [pow_succ] at hj; omega)]
    rfl

/-- **A path read from the levels is the path of the tree.** -/
theorem pathInLevels_eq {leaves : List U256} {d i : Nat} (h : leaves.length = 2 ^ d)
    (hi : i < 2 ^ d) :
    pathInLevels (treeLevels poseidon2 leaves) i =
      .ok (MerkleTree.path (nodeHash poseidon2) (fun i => leaves.getD i 0) d i) := by
  have hleaves := nodes_zero poseidon2 leaves
  rw [h] at hleaves
  have hlevels : treeLevels poseidon2 leaves = (List.range (d + 1)).map fun i =>
      nodes poseidon2 (fun i => leaves.getD i 0) i (2 ^ (d - i)) := by
    rw [← hleaves, treeLevels_nodes, hleaves]
    simp
  have hsiblings := @siblingsIn_nodes poseidon2 (fun i => leaves.getD i 0) 0 d i hi
  simp only [Nat.zero_add] at hsiblings
  have hhead : (treeLevels poseidon2 leaves).head? = some leaves := by
    rw [treeLevels]
    rfl
  have hlast : (treeLevels poseidon2 leaves).dropLast = (List.range d).map fun i =>
      nodes poseidon2 (fun i => leaves.getD i 0) i (2 ^ (d - i)) := by
    rw [hlevels, List.range_succ, List.map_append]
    exact List.dropLast_concat
  unfold pathInLevels
  rw [hhead, hlast]
  dsimp only
  rw [if_pos (by rwa [h]), hsiblings]
  rfl

theorem shiftRight_and_one (index : U64) (level : Nat) :
    index >>> level &&& 1 = 0 ↔ index.toNat / 2 ^ level % 2 = 0 := by
  rw [← BitVec.toNat_inj, BitVec.toNat_and, BitVec.toNat_ushiftRight, Nat.shiftRight_eq_div_pow]
  change _ &&& 1 = 0 ↔ _
  rw [Nat.and_one_is_mod]

theorem walkUp_eq (index : U64) (level : Nat) (node : U256) (siblings : List U256) :
    walkUp poseidon2 index level node siblings =
      MerkleTree.walk (nodeHash poseidon2) node (index.toNat / 2 ^ level) siblings := by
  induction siblings generalizing level node with
  | nil => rfl
  | cons sibling siblings ih =>
    have hnode : (if index >>> level &&& 1 = 0 then nodeHash poseidon2 node sibling
          else nodeHash poseidon2 sibling node) =
        nodeHash poseidon2 (MerkleTree.pairUp node (index.toNat / 2 ^ level) sibling).1
          (MerkleTree.pairUp node (index.toNat / 2 ^ level) sibling).2 := by
      simp only [shiftRight_and_one, MerkleTree.pairUp]
      split <;> rfl
    rw [walkUp, MerkleTree.walk, ih, hnode, Nat.div_div_eq_div_mul, ← pow_succ]

/-- **The walk of the tools is the walk of the tree.**  It answers exactly for the
paths of the given depth and the positions inside the tree. -/
theorem rootFromPath_eq_ok {leaf out : U256} {index : U64} {siblings : List U256} {depth : Nat} :
    rootFromPath poseidon2 leaf index siblings depth = .ok out ↔
      siblings.length = depth ∧ depth < 64 ∧ index.toNat < 2 ^ depth ∧
        MerkleTree.walk (nodeHash poseidon2) leaf index.toNat siblings = out := by
  have hbound : depth < 64 → ((1 : U64) <<< depth ≤ index ↔ 2 ^ depth ≤ index.toNat) := fun h => by
    have hpow : 2 ^ depth < 2 ^ 64 := Nat.pow_lt_pow_right (by norm_num) h
    rw [BitVec.le_def, BitVec.toNat_shiftLeft, Nat.shiftLeft_eq]
    change 1 * 2 ^ depth % 2 ^ 64 ≤ _ ↔ _
    rw [Nat.one_mul, Nat.mod_eq_of_lt hpow]
  unfold rootFromPath
  split
  · rename_i h
    simp [h]
  split
  · rename_i h
    simp only [reduceCtorEq, false_iff]
    rintro ⟨-, hdepth, hindex, -⟩
    rcases h with h | h
    · omega
    · have := (hbound hdepth).mp h
      omega
  · rename_i hlength h
    rw [not_or, Nat.not_le] at h
    rw [Except.ok.injEq, walkUp_eq, pow_zero, Nat.div_one]
    have hindex : index.toNat < 2 ^ depth := by
      have := (hbound h.1).not.mp h.2
      omega
    simp [not_not.mp hlength, h.1, hindex]

end Fold

/-! ## The redacted tree of one generation -/

/-- The attestation that a redacted tree belongs to. -/
structure TreeBinding where
  network : String
  registry : String
  asset : String
  attestationId : U64
  snapshotLedger : U32
  contextHash : Nat
  root : Nat
  treeDepth : U32
deriving DecidableEq

/-- What the authority keeps of a tree: an identifier and a commitment for each leaf, of
which the first `count` are those of customers. -/
structure RetainedTree where
  binding : TreeBinding
  entries : List (Nat × Nat)
  count : Nat
deriving DecidableEq

/-- The identifiers of the customers, in row order. -/
def RetainedTree.identifiers (tree : RetainedTree) : List Nat :=
  (tree.entries.take tree.count).map Prod.fst

end ZkPoR.Package
