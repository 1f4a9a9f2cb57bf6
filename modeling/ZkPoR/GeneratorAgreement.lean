import ZkPoR.CircuitSoundness
import ZkPoR.Generator

/-! # The generator and the circuits agree

Three computations read the same customer list: the loop over one batch, the fold
of the circuits, and the fold of the tools.  Each is compared with one description
of the tree, `leafOf`, which gives the opened leaf of every position of the padded
list.  The identifier rules make every identifier a field element, so the leaf of
the tools is the leaf of the circuits (`leafOfRow_eq`), and the node of the tools
is the node of the circuits (`ofFr_hash2`); the two folds then meet in the tree.
-/
namespace ZkPoR.Generator
open CheckedInt BoundedLoop InsertionSort Package Circuit

/-! ## The identifier rules -/

theorem identifierRulesFrom_eq_ok {row : Nat} {seen : List Nat} {rows : List Row} :
    identifierRulesFrom row seen rows = .ok () ↔
      (∀ r ∈ rows, r.1 ≠ ZkPoR.PADDING_LEAF_ID ∧ r.1 < frModulus ∧ r.1 ∉ seen) ∧
        (rows.map Prod.fst).Nodup := by
  induction rows generalizing row seen with
  | nil => simp [identifierRulesFrom]
  | cons r rows ih =>
    obtain ⟨id, balance⟩ := r
    unfold identifierRulesFrom
    rw [List.forall_mem_cons, List.map_cons, List.nodup_cons]
    split
    · rename_i h
      simp [h]
    split
    · rename_i h
      simp [h]
    split
    · rename_i h
      simp [h]
    rename_i hzero hrange hseen
    rw [not_not] at hrange
    rw [ih]
    simp only [List.mem_cons, not_or, List.mem_map, not_exists, not_and]
    constructor
    · rintro ⟨hrest, hnodup⟩
      exact ⟨⟨⟨hzero, hrange, hseen⟩, fun r hr =>
        ⟨(hrest r hr).1, (hrest r hr).2.1, (hrest r hr).2.2.2⟩⟩,
        fun r hr => (hrest r hr).2.2.1, hnodup⟩
    · rintro ⟨⟨-, hrest⟩, hfresh, hnodup⟩
      exact ⟨fun r hr => ⟨(hrest r hr).1, (hrest r hr).2.1, hfresh r hr, (hrest r hr).2.2⟩, hnodup⟩

/-- **The identifier rules.**  Every identifier is a field element other than the
padding one, and none appears twice. -/
theorem assertIdentifierRules_eq_ok {rows : List Row} :
    assertIdentifierRules rows = .ok () ↔
      (∀ r ∈ rows, r.1 ≠ ZkPoR.PADDING_LEAF_ID ∧ r.1 < frModulus) ∧ (rows.map Prod.fst).Nodup := by
  simp [assertIdentifierRules, identifierRulesFrom_eq_ok]

/-! ## The shape -/

/-- The configuration of a shape. -/
def configOf (shape : Shape) : Config where
  b := shape.b
  k := shape.k
  capacity := shape.capacity

/-- **What the shape check accepts.**  The configuration is that of a shape, unless
the capacity leaves 64 bits, and then it wraps to zero. -/
theorem config_of_readShape {batchB numBatchesK nodeHashArity : U64} {config : Config}
    (h : readShape batchB numBatchesK nodeHashArity = .ok config) :
    (∃ shape : Shape, config = configOf shape) ∨
      (2 ^ 64 ≤ config.b * config.k ∧ config.capacity = 0) := by
  unfold readShape at h
  split at h
  · cases h
  split at h
  · cases h
  split at h
  · cases h
  rename_i hb hk
  rw [not_not] at hb hk
  obtain rfl := Except.ok.inj h
  by_cases hlt : batchB.toNat * numBatchesK.toNat < 2 ^ 64
  · refine .inl ⟨⟨_, _, hb.1, hb.2, hk.1, hk.2, hlt⟩, ?_⟩
    simp only [configOf, Shape.capacity, Config.mk.injEq, true_and]
    rw [BitVec.toNat_mul, Nat.mod_eq_of_lt hlt]
  · rw [Nat.not_lt] at hlt
    refine .inr ⟨hlt, ?_⟩
    obtain ⟨i, hi⟩ := hb.2
    obtain ⟨j, hj⟩ := hk.2
    rw [hi, hj, ← pow_add] at hlt
    have hij : 64 ≤ i + j := (Nat.pow_le_pow_iff_right (by norm_num)).mp hlt
    rw [BitVec.toNat_mul, hi, hj, ← pow_add]
    exact Nat.mod_eq_zero_of_dvd (Nat.pow_dvd_pow 2 hij)

theorem two_le_of_readShape {batchB numBatchesK nodeHashArity : U64} {config : Config}
    (h : readShape batchB numBatchesK nodeHashArity = .ok config) :
    2 ≤ config.b ∧ 2 ≤ config.k := by
  unfold readShape at h
  split at h
  · cases h
  split at h
  · cases h
  split at h
  · cases h
  rename_i hb hk
  rw [not_not] at hb hk
  obtain rfl := Except.ok.inj h
  exact ⟨hb.1, hk.1⟩

theorem depth_lt (shape : Shape) : shape.depth < 64 := by
  have h := shape.capacity_lt
  rw [show shape.b * shape.k = shape.capacity from rfl, Shape.capacity_eq] at h
  exact (Nat.pow_lt_pow_iff_right (by norm_num)).mp h

/-- The trailing zeros of the capacity are the depth of the tree. -/
theorem trailingZeros_capacity (shape : Shape) : trailingZeros shape.capacity = shape.depth := by
  have hd := depth_lt shape
  have hbit : ∀ i, (BitVec.ofNat 64 shape.capacity).getLsbD i =
      decide (i = shape.depth) := fun i => by
    rw [BitVec.getLsbD_ofNat, Shape.capacity_eq, Nat.testBit_two_pow]
    by_cases hi : i = shape.depth
    · simp [hi, hd]
    · simp [hi, Ne.symm hi]
  have hne : BitVec.ofNat 64 shape.capacity ≠ 0 := fun h => by
    have hset := hbit shape.depth
    rw [h] at hset
    simp at hset
  have hctz := BitVec.getLsbD_true_ctz_of_ne_zero hne
  rw [hbit] at hctz
  exact of_decide_eq_true hctz

/-! ## One leaf -/

theorem toFr_eq {value : Nat} (h : value < frModulus) :
    toFr value = .ok (ofFr (frOfNat value)) := by
  have hlt := h.trans frModulus_lt
  have hnat : (BitVec.ofNat 256 value).toNat = value := by
    rw [BitVec.toNat_ofNat, Nat.mod_eq_of_lt hlt]
  have hofFr : BitVec.ofNat 256 value = ofFr (frOfNat value) := by rw [ofFr, frOfNat_val h]
  unfold toFr be32
  rw [if_pos hlt]
  change (if (BitVec.ofNat 256 value).toNat < frModulus then _ else _) = _
  rw [hnat, if_pos h, hofFr]

theorem toBig_ofFr (a : Fr) : toBig (ofFr a) = a.val := toNat_ofFr a

theorem toFr_leafDomainTag : ZkPoR.toFr leafDomainTag = LEAF_DOMAIN_TAG := by decide +kernel

theorem toFr_balanceDomainTag : ZkPoR.toFr balanceDomainTag = BALANCE_DOMAIN_TAG := by
  decide +kernel

section Leaf
variable (poseidon2 : List Fr → Fr)

/-- The node of the tools is the node of the circuits. -/
theorem ofFr_hash2 (a b : Fr) :
    ofFr (hash2 poseidon2 a b) = nodeHash poseidon2 (ofFr a) (ofFr b) := by
  rw [nodeHash, ZkPoR.hash, List.map_cons, List.map_cons, List.map_nil, toFr_ofFr, toFr_ofFr, hash2]

/-- The opened leaf of one row. -/
def openedLeaf (masterSecret context : U256) (row : Row) (globalIndex : Nat) : Leaf where
  id := frOfNat row.1
  balance := row.2
  salt := ZkPoR.toFr
    (deriveSalt poseidon2 masterSecret context (BitVec.ofNat 64 globalIndex))

variable {poseidon2}

/-- The leaf of the tools is the leaf of the circuits. -/
theorem leafOfRow_eq {masterSecret context : U256} {row : Row} {globalIndex : Nat}
    (h : row.1 < frModulus) :
    leafOfRow poseidon2 masterSecret context row globalIndex =
      .ok (deriveSalt poseidon2 masterSecret context (BitVec.ofNat 64 globalIndex),
        ofFr ((openedLeaf poseidon2 masterSecret context row globalIndex).hash poseidon2)) := by
  have hbalance : ZkPoR.toFr (BitVec.ofNat 256 row.2.toNat) = frOfNat row.2.toNat := by
    have := row.2.isLt
    rw [ZkPoR.toFr, BitVec.toNat_ofNat, Nat.mod_eq_of_lt (by omega)]
  have hcommitment : ∀ salt, commitmentOfRow poseidon2 row salt =
      ofFr (Circuit.balanceCommitment poseidon2 row.2 (ZkPoR.toFr salt)) := fun salt => by
    simp only [commitmentOfRow, ZkPoR.balanceCommitment, ZkPoR.hash, List.map_cons, List.map_nil,
      toFr_balanceDomainTag, hbalance, Circuit.balanceCommitment]
  unfold leafOfRow
  rw [toFr_eq h]
  simp only [bind, Except.bind, pure, Except.pure, hcommitment, Leaf.hash, openedLeaf,
    ZkPoR.leafHash, ZkPoR.hash, List.map_cons, List.map_nil, toFr_leafDomainTag, toFr_ofFr,
    Circuit.leafHash]

end Leaf

/-! ## The padded rows -/

/-- The row at one position of the padded list. -/
def rowAt (customers : CustomerList) (i : Nat) : Row :=
  customers.rows.getD i (ZkPoR.PADDING_LEAF_ID, ZkPoR.PADDING_LEAF_BALANCE)

theorem rowAt_lt (customers : CustomerList) (i : Nat) : (rowAt customers i).1 < frModulus := by
  unfold rowAt
  rw [List.getD_eq_getElem?_getD]
  cases h : customers.rows[i]? with
  | none => exact frModulus_pos
  | some row =>
    exact ((assertIdentifierRules_eq_ok.mp customers.accepted).1 row (List.mem_of_getElem? h)).2

theorem padToCapacity_eq_ok {customers : CustomerList} {capacity : Nat} {rows : List Row} :
    padToCapacity customers.rows capacity = .ok rows ↔
      customers.rows.length ≤ capacity ∧ rows = (List.range capacity).map (rowAt customers) := by
  unfold padToCapacity
  split
  · rename_i h
    simp [h]
  · rename_i h
    rw [not_not] at h
    rw [Except.ok.injEq]
    have hpad : customers.rows ++ List.replicate (capacity - customers.rows.length)
        (ZkPoR.PADDING_LEAF_ID, ZkPoR.PADDING_LEAF_BALANCE) =
          (List.range capacity).map (rowAt customers) := by
      refine List.ext_getElem (by simp; omega) fun i hi hi' => ?_
      rw [List.getElem_map, List.getElem_range, rowAt, List.getD_eq_getElem?_getD,
        List.getElem_append]
      split
      · rename_i hlt
        rw [List.getElem?_eq_getElem hlt, Option.getD_some]
      · rename_i hge
        rw [List.getElem_replicate, List.getElem?_eq_none (by omega), Option.getD_none]
    rw [hpad]
    exact ⟨fun heq => ⟨h, heq.symm⟩, fun heq => heq.2.symm⟩

section Tree
variable {poseidon2 : List Fr → Fr}

/-- The opened leaf of one position. -/
def leafOf (poseidon2 : List Fr → Fr) (masterSecret context : U256) (customers : CustomerList)
    (i : Nat) : Leaf := openedLeaf poseidon2 masterSecret context (rowAt customers i) i

/-- The salt of one position. -/
def saltOf (poseidon2 : List Fr → Fr) (masterSecret context : U256) (i : Nat) : U256 :=
  deriveSalt poseidon2 masterSecret context (BitVec.ofNat 64 i)

/-- The leaf hash of one position. -/
def hashOf (poseidon2 : List Fr → Fr) (masterSecret context : U256) (customers : CustomerList)
    (i : Nat) : U256 := ofFr ((leafOf poseidon2 masterSecret context customers i).hash poseidon2)

variable {masterSecret context : U256} {customers : CustomerList}

theorem leafOfRow_rowAt (i : Nat) :
    leafOfRow poseidon2 masterSecret context (rowAt customers i) i =
      .ok (saltOf poseidon2 masterSecret context i,
        hashOf poseidon2 masterSecret context customers i) := leafOfRow_eq (rowAt_lt customers i)

theorem leavesOfRows_eq (n : Nat) :
    leavesOfRows poseidon2 masterSecret context ((List.range n).map (rowAt customers)) =
      .ok ((List.range n).map fun i => (saltOf poseidon2 masterSecret context i,
        hashOf poseidon2 masterSecret context customers i)) := by
  have hzip : ((List.range n).map (rowAt customers)).zipIdx =
      (List.range n).map fun i => (rowAt customers i, i) := by
    refine List.ext_getElem (by simp) fun i hi hi' => ?_
    simp
  unfold leavesOfRows
  rw [hzip, mapM_eq_ok (g := fun p => (saltOf poseidon2 masterSecret context p.2,
    hashOf poseidon2 masterSecret context customers p.2)), List.map_map]
  · rfl
  · intro p hp
    obtain ⟨i, -, rfl⟩ := List.mem_map.mp hp
    exact leafOfRow_rowAt i

/-! ## Two folds -/

theorem chunks_eq {α : Type} {size : Nat} (hsize : 0 < size) (n : Nat) (l : List α)
    (h : l.length = n * size) :
    chunks size l = (List.range n).map fun c => (l.drop (c * size)).take size := by
  induction n generalizing l with
  | zero =>
    rw [Nat.zero_mul, List.length_eq_zero_iff] at h
    rw [h, chunks]
    simp
  | succ n ih =>
    have hne : l ≠ [] := by
      rintro rfl
      rw [Nat.succ_mul] at h
      simp at h
      omega
    rw [chunks, if_pos ⟨hsize, hne⟩,
      ih (l.drop size) (by rw [List.length_drop, h, Nat.succ_mul]; omega),
      List.range_succ_eq_map, List.map_cons, List.map_map, Nat.zero_mul, List.drop_zero]
    congr 1
    refine List.map_congr_left fun c _ => ?_
    rw [Function.comp_apply, List.drop_drop, Nat.succ_mul, Nat.add_comm]

/-- **Two folds give one tree.** -/
theorem foldedRoot_eq {leaves : List U256} {d e : Nat} (h : leaves.length = 2 ^ (d + e)) :
    foldedRoot poseidon2 leaves (2 ^ d) =
      .ok (MerkleTree.root (nodeHash poseidon2) (fun i => leaves.getD i 0) (d + e)) := by
  have hlength : leaves.length = 2 ^ e * 2 ^ d := by rw [h, pow_add, Nat.mul_comm]
  have hchunk : ∀ c < 2 ^ e,
      ((leaves.drop (c * 2 ^ d)).take (2 ^ d)).length = 2 ^ d := fun c hc => by
    have hblock : (c + 1) * 2 ^ d ≤ 2 ^ e * 2 ^ d := Nat.mul_le_mul_right _ hc
    rw [Nat.succ_mul] at hblock
    rw [List.length_take, List.length_drop, hlength]
    omega
  have hroots : (chunks (2 ^ d) leaves).mapM (subtreeRoot poseidon2) =
      .ok ((List.range (2 ^ e)).map fun c => MerkleTree.root (nodeHash poseidon2)
        (fun i => leaves.getD (c * 2 ^ d + i) 0) d) := by
    rw [chunks_eq (Nat.two_pow_pos d) _ _ hlength, mapM_eq_ok (g := fun chunk =>
      MerkleTree.root (nodeHash poseidon2) (fun i => chunk.getD i 0) d), List.map_map]
    · congr 1
      refine List.map_congr_left fun c _ => MerkleTree.root_congr _ d fun i hi => ?_
      simp [hi, List.getElem?_drop]
    · intro chunk hmem
      obtain ⟨c, hc, rfl⟩ := List.mem_map.mp hmem
      exact Package.subtreeRoot_eq (hchunk c (List.mem_range.mp hc))
  unfold foldedRoot
  rw [hroots]
  change subtreeRoot poseidon2 _ = _
  rw [Package.subtreeRoot_eq (d := e) (by simp), ← MerkleTree.root_of_roots]
  congr 1
  refine MerkleTree.root_congr _ e fun c hc => ?_
  simp [hc]

variable (poseidon2 masterSecret context customers) in
/-- The root of the tree over the rows. -/
theorem root_hashOf (n d start : Nat) (hn : 2 ^ d ≤ n) :
    MerkleTree.root (nodeHash poseidon2) (fun i => ((List.range n).map fun i =>
      hashOf poseidon2 masterSecret context customers (start + i)).getD i 0) d =
      ofFr (MerkleTree.root (hash2 poseidon2) (fun i =>
        (leafOf poseidon2 masterSecret context customers (start + i)).hash poseidon2) d) := by
  rw [MerkleTree.root, MerkleTree.root, MerkleTree.map_nodeAt _ (ofFr_hash2 poseidon2)]
  refine MerkleTree.root_congr _ d fun i hi => ?_
  have hlt : i < n := by omega
  simp [hlt, hashOf]

end Tree

/-! ## The batches -/

section Batch
variable {poseidon2 : List Fr → Fr} {masterSecret context : U256} {customers : CustomerList}

/-- The leaves of one batch, by position in the batch. -/
def batchLeaf (poseidon2 : List Fr → Fr) (masterSecret context : U256) (customers : CustomerList)
    (b batch : Nat) : Nat → Leaf :=
  fun j => leafOf poseidon2 masterSecret context customers (batch * b + j)

/-- What the loop over one batch has collected after `j` rows. -/
def batchStateAt (poseidon2 : List Fr → Fr) (masterSecret context : U256)
    (customers : CustomerList) (b batch j : Nat) : BatchState where
  ids := (List.range j).map fun i => (rowAt customers (batch * b + i)).1
  balances := (List.range j).map fun i => (rowAt customers (batch * b + i)).2
  salts := (List.range j).map fun i => toBig (saltOf poseidon2 masterSecret context (batch * b + i))
  leaves := (List.range j).map fun i =>
    hashOf poseidon2 masterSecret context customers (batch * b + i)
  sum := BitVec.ofNat 128 (total (batchLeaf poseidon2 masterSecret context customers b batch) j)

theorem getElem_rows {capacity i : Nat} (h : i < capacity) :
    index ((List.range capacity).map (rowAt customers)) i = .ok (rowAt customers i) := by
  simp [index, h]

theorem batchStep_eq {capacity b batch j : Nat} (h : batch * b + j < capacity) :
    batchStep poseidon2 b context masterSecret ((List.range capacity).map (rowAt customers)) batch j
        (batchStateAt poseidon2 masterSecret context customers b batch j) =
      .ok (batchStateAt poseidon2 masterSecret context customers b batch (j + 1)) := by
  have hsum : (batchStateAt poseidon2 masterSecret context customers b batch j).sum +
      (rowAt customers (batch * b + j)).2.setWidth 128 =
        (batchStateAt poseidon2 masterSecret context customers b batch (j + 1)).sum := by
    have hwide : (rowAt customers (batch * b + j)).2.setWidth 128 =
        BitVec.ofNat 128 (batchLeaf poseidon2 masterSecret context customers b batch j).balance.toNat :=
      BitVec.eq_of_toNat_eq (by rw [BitVec.toNat_setWidth, BitVec.toNat_ofNat]; rfl)
    rw [hwide]
    simp only [batchStateAt, total_succ, BitVec.ofNat_add]
  unfold batchStep
  simp only [getElem_rows h, bind, Except.bind, pure, Except.pure, leafOfRow_rowAt, hsum]
  simp [batchStateAt, List.range_succ]

/-- The file of one batch. -/
def proverFile (poseidon2 : List Fr → Fr) (masterSecret context : U256) (customers : CustomerList)
    (shape : Shape) (batch : Nat) : ProverFile :=
  let s := batchStateAt poseidon2 masterSecret context customers shape.b batch shape.b
  { batchSlot := batch
    subroot := (MerkleTree.root (hash2 poseidon2) (fun j => (batchLeaf poseidon2 masterSecret
      context customers shape.b batch j).hash poseidon2) shape.batchDepth).val
    subtotal := s.sum
    ids := s.ids
    balances := s.balances
    salts := s.salts }

theorem block_le {shape : Shape} {batch : Nat} (h : batch < shape.k) :
    batch * shape.b + shape.b ≤ shape.capacity :=
  calc batch * shape.b + shape.b = shape.b * (batch + 1) := by ring
    _ ≤ shape.capacity := Nat.mul_le_mul_left _ h

theorem witnessBatch_eq {shape : Shape} {batch : Nat} (h : batch < shape.k) :
    witnessBatch poseidon2 shape.b context masterSecret
        ((List.range shape.capacity).map (rowAt customers)) batch =
      .ok (proverFile poseidon2 masterSecret context customers shape batch) := by
  have hblock := block_le h
  obtain ⟨s, hloop, rfl⟩ := @forRange_total BatchState String shape.b ⟨[], [], [], [], 0⟩ _
    (fun j s => s = batchStateAt poseidon2 masterSecret context customers shape.b batch j)
    rfl fun j hj s hs => by
      rw [hs]
      have hlt : batch * shape.b + j < shape.capacity := by omega
      exact ⟨_, batchStep_eq hlt, rfl⟩
  have hroot : Package.subtreeRoot poseidon2
      (batchStateAt poseidon2 masterSecret context customers shape.b batch shape.b).leaves =
        .ok (ofFr (MerkleTree.root (hash2 poseidon2) (fun j => (batchLeaf poseidon2 masterSecret
          context customers shape.b batch j).hash poseidon2) shape.batchDepth)) := by
    rw [Package.subtreeRoot_eq (d := shape.batchDepth) (by simp [batchStateAt, ← shape.b_eq])]
    exact congrArg Except.ok (root_hashOf _ _ _ _ _ _ _ shape.b_eq.ge)
  unfold witnessBatch
  rw [hloop]
  simp only [bind, Except.bind, pure, Except.pure, hroot, toBig_ofFr]
  rfl

theorem total_batch_lt (shape : Shape) (leaf : Nat → Leaf) {n : Nat} (hn : n ≤ shape.capacity) :
    total leaf n < 2 ^ 128 := by
  have hcapacity : shape.capacity < 2 ^ 64 := shape.capacity_lt
  have hle := total_le leaf n
  have hmul : n * (2 ^ 64 - 1) ≤ 2 ^ 64 * (2 ^ 64 - 1) := Nat.mul_le_mul_right _ (by omega)
  omega

/-! ## The inputs of the circuits -/

/-- A file spells the inputs of an inner circuit: every integer of the file is the
value of the input. -/
structure ProverFile.Spells {B : Nat} (file : ProverFile) (w : Inner.Inputs B) : Prop where
  batchSlot : file.batchSlot = w.batchSlot.val
  subroot : file.subroot = w.subroot.val
  subtotal : file.subtotal.toNat = w.subtotal.val
  ids : file.ids = w.ids.toList.map Fin.val
  balances : file.balances = w.balances.toList
  salts : file.salts = w.salts.toList.map Fin.val

/-- The inputs of one batch. -/
def batchInputs (poseidon2 : List Fr → Fr) (masterSecret context : U256) (customers : CustomerList)
    (shape : Shape) (batch : Nat) : Inner.Inputs shape.b :=
  let leaf := batchLeaf poseidon2 masterSecret context customers shape.b batch
  { batchSlot := frOfNat batch
    subroot := MerkleTree.root (hash2 poseidon2) (fun j => (leaf j).hash poseidon2) shape.batchDepth
    subtotal := frOfNat (total leaf shape.b)
    ids := Vector.ofFn fun j => (leaf j).id
    balances := Vector.ofFn fun j => (leaf j).balance
    salts := Vector.ofFn fun j => (leaf j).salt }

theorem leaf_batchInputs {shape : Shape} {batch j : Nat} (hj : j < shape.b) :
    (batchInputs poseidon2 masterSecret context customers shape batch).leaf j =
      batchLeaf poseidon2 masterSecret context customers shape.b batch j := by
  simp only [Inner.Inputs.leaf, batchInputs, entry_ofFn hj]

theorem padded_leafOf (i : Nat) :
    (leafOf poseidon2 masterSecret context customers i).Padded := by
  intro h
  have hid : (rowAt customers i).1 = 0 := by
    have hval := congrArg Fin.val h
    rw [show (leafOf poseidon2 masterSecret context customers i).id =
      frOfNat (rowAt customers i).1 from rfl, frOfNat_val (rowAt_lt customers i)] at hval
    exact hval
  change (rowAt customers i).2 = 0
  unfold rowAt at hid ⊢
  rw [List.getD_eq_getElem?_getD] at hid ⊢
  cases hrow : customers.rows[i]? with
  | none => rfl
  | some row =>
    rw [hrow, Option.getD_some] at hid
    exact absurd hid ((assertIdentifierRules_eq_ok.mp customers.accepted).1 row
      (List.mem_of_getElem? hrow)).1

/-- **Each batch satisfies the inner circuit.** -/
theorem main_batchInputs {shape : Shape} {batch : Nat} (h : batch < shape.k) :
    Inner.main poseidon2 (batchInputs poseidon2 masterSecret context customers shape batch) =
      .ok () := by
  have hblock := block_le h
  have htotal : total (batchInputs poseidon2 masterSecret context customers shape batch).leaf shape.b =
      total (batchLeaf poseidon2 masterSecret context customers shape.b batch) shape.b :=
    total_congr fun j hj => leaf_batchInputs hj
  refine (Inner.main_eq_ok shape.b_eq).mpr ⟨fun j hj => ?_, ?_, ?_, ?_⟩
  · rw [leaf_batchInputs hj]
    exact padded_leafOf _
  · exact total_batch_lt shape _ (by omega)
  · exact MerkleTree.root_congr _ _ fun j hj => by
      rw [leaf_batchInputs (by rwa [shape.b_eq])]
  · rw [htotal]
    rfl

theorem spells_batchInputs {shape : Shape} {batch : Nat} (h : batch < shape.k) :
    (proverFile poseidon2 masterSecret context customers shape batch).Spells
      (batchInputs poseidon2 masterSecret context customers shape batch) := by
  have hblock := block_le h
  have hcapacity : shape.capacity < 2 ^ 64 := shape.capacity_lt
  have hb := shape.two_le_b
  have hmodulus := lt_frModulus
  have hbatch : batch < frModulus := by nlinarith
  have hsum := total_batch_lt shape
    (batchLeaf poseidon2 masterSecret context customers shape.b batch) (n := shape.b) (by omega)
  refine ⟨(frOfNat_val hbatch).symm, rfl, ?_, ?_, ?_, ?_⟩
  · change (BitVec.ofNat 128 _).toNat = (frOfNat _).val
    rw [BitVec.toNat_ofNat, Nat.mod_eq_of_lt hsum, frOfNat_val (hsum.trans lt_frModulus)]
  · refine List.ext_getElem (by simp [proverFile, batchStateAt]) fun j hj hj' => ?_
    simp [proverFile, batchStateAt, batchInputs, batchLeaf, leafOf, openedLeaf,
      frOfNat_val (rowAt_lt customers _)]
  · refine List.ext_getElem (by simp [proverFile, batchStateAt]) fun j hj hj' => ?_
    simp [proverFile, batchStateAt, batchInputs, batchLeaf, leafOf, openedLeaf]
  · refine List.ext_getElem (by simp [proverFile, batchStateAt]) fun j hj hj' => ?_
    simp [proverFile, batchStateAt, batchInputs, batchLeaf, leafOf, openedLeaf, saltOf, toBig,
      deriveSalt, ZkPoR.hash]

/-! ## The commands -/

/-- The root of the whole tree. -/
def treeRoot (poseidon2 : List Fr → Fr) (masterSecret context : U256) (customers : CustomerList)
    (shape : Shape) : Fr :=
  MerkleTree.root (hash2 poseidon2)
    (fun i => (leafOf poseidon2 masterSecret context customers i).hash poseidon2) shape.depth

/-- The leaves of the whole tree. -/
def treeLeaves (poseidon2 : List Fr → Fr) (masterSecret context : U256) (customers : CustomerList)
    (shape : Shape) : List U256 :=
  (List.range shape.capacity).map (hashOf poseidon2 masterSecret context customers)

variable (poseidon2 masterSecret context customers) in
theorem length_treeLeaves (shape : Shape) :
    (treeLeaves poseidon2 masterSecret context customers shape).length = 2 ^ shape.depth := by
  rw [treeLeaves, List.length_map, List.length_range, shape.capacity_eq]

theorem root_treeLeaves (shape : Shape) :
    MerkleTree.root (nodeHash poseidon2)
        (fun i => (treeLeaves poseidon2 masterSecret context customers shape).getD i 0) shape.depth =
      ofFr (treeRoot poseidon2 masterSecret context customers shape) := by
  have h := root_hashOf poseidon2 masterSecret context customers shape.capacity shape.depth 0
    shape.capacity_eq.ge
  simp only [Nat.zero_add] at h
  exact h

theorem subtreeRoot_treeLeaves (shape : Shape) :
    Package.subtreeRoot poseidon2 (treeLeaves poseidon2 masterSecret context customers shape) =
      .ok (ofFr (treeRoot poseidon2 masterSecret context customers shape)) := by
  rw [Package.subtreeRoot_eq (length_treeLeaves _ _ _ _ shape), root_treeLeaves]

theorem foldedRoot_treeLeaves (shape : Shape) :
    foldedRoot poseidon2 (treeLeaves poseidon2 masterSecret context customers shape) shape.b =
      .ok (ofFr (treeRoot poseidon2 masterSecret context customers shape)) := by
  rw [shape.b_eq, foldedRoot_eq (length_treeLeaves _ _ _ _ shape), ← Shape.depth, root_treeLeaves]

/-- The witness command writes the files of the batches, unless it refuses the
prior tree or the list does not fit. -/
theorem cmdWitness_eq_ok {shape : Shape} {ctx : AttestationContext} {prior : Option PriorInput}
    {network registry : Option String} {files : WitnessFiles} :
    cmdWitness poseidon2 (configOf shape) ctx masterSecret customers prior network registry =
        .ok files ↔
      checkPriorOption prior network registry ctx.asset customers.rows shape.capacity = .ok () ∧
        customers.rows.length ≤ shape.capacity ∧
        files = ⟨shape.b, (List.range shape.k).map
          (proverFile poseidon2 masterSecret ctx.hash customers shape)⟩ := by
  have hbatches : (List.range shape.k).mapM (witnessBatch poseidon2 shape.b ctx.hash masterSecret
      ((List.range shape.capacity).map (rowAt customers))) = .ok ((List.range shape.k).map
        (proverFile poseidon2 masterSecret ctx.hash customers shape)) :=
    mapM_eq_ok fun batch hbatch => witnessBatch_eq (List.mem_range.mp hbatch)
  unfold cmdWitness
  constructor
  · intro h
    obtain ⟨⟨⟩, hprior, h⟩ := bind_eq_ok.mp h
    obtain ⟨rows, hpad, h⟩ := bind_eq_ok.mp h
    obtain ⟨provers, hprovers, h⟩ := bind_eq_ok.mp h
    obtain ⟨hlength, rfl⟩ := padToCapacity_eq_ok.mp hpad
    obtain rfl := Except.ok.inj (hbatches.symm.trans hprovers)
    exact ⟨hprior, hlength, (Except.ok.inj h).symm⟩
  · rintro ⟨hprior, hlength, rfl⟩
    exact bind_eq_ok.mpr ⟨(), hprior, bind_eq_ok.mpr ⟨_, padToCapacity_eq_ok.mpr ⟨hlength, rfl⟩,
      bind_eq_ok.mpr ⟨_, hbatches, rfl⟩⟩⟩

/-- The packages command builds the same tree. -/
theorem packageTree_eq {shape : Shape} (hlength : customers.rows.length ≤ shape.capacity) :
    ∃ tree, packageTree poseidon2 (configOf shape) context masterSecret customers = .ok tree ∧
      tree.leaves = treeLeaves poseidon2 masterSecret context customers shape ∧
      tree.root = (treeRoot poseidon2 masterSecret context customers shape).val := by
  have hleaves : ((List.range shape.capacity).map fun i => (saltOf poseidon2 masterSecret context i,
      hashOf poseidon2 masterSecret context customers i)).map Prod.snd =
        treeLeaves poseidon2 masterSecret context customers shape := by
    rw [List.map_map]
    rfl
  unfold packageTree
  simp only [configOf, padToCapacity_eq_ok.mpr ⟨hlength, rfl⟩, bind, Except.bind, pure,
    Except.pure, leavesOfRows_eq, hleaves, foldedRoot_treeLeaves]
  exact ⟨_, rfl, rfl, toBig_ofFr _⟩

/-! ### The path command -/

theorem exists_indexOfCustomer {rows : List Row} {id : Nat} (h : id ∈ rows.map Prod.fst) :
    ∃ i < rows.length, indexOfCustomer rows id = .ok i := by
  unfold indexOfCustomer
  cases hfind : rows.findIdx? fun row => decide (row.1 = id) with
  | none =>
    obtain ⟨row, hmem, hid⟩ := List.mem_map.mp h
    have hne := List.findIdx?_eq_none_iff.mp hfind row hmem
    simp [hid] at hne
  | some i =>
    obtain ⟨hlt, -⟩ := List.findIdx?_eq_some_iff_getElem.mp hfind
    exact ⟨i, hlt, rfl⟩

theorem mem_of_mem_dedup {a : Nat} {l : List Nat} (h : a ∈ dedup l) : a ∈ l := by
  fun_induction dedup l with
  | case1 b l ih => exact List.mem_cons_of_mem _ (ih h)
  | case2 b c l hne ih =>
    rcases List.mem_cons.mp h with rfl | h
    · exact List.mem_cons_self
    · exact List.mem_cons_of_mem _ (ih h)
  | case3 l => exact h

/-- The path command checks leaves of the tree. -/
theorem selfCheckIndices_lt {shape : Shape} {count requested : Nat}
    (hcount : count ≤ shape.capacity) (hrequested : requested < shape.capacity) :
    ∀ i ∈ selfCheckIndices shape.b count requested, i < shape.capacity := by
  intro i hi
  have hb := shape.two_le_b
  have hk := shape.two_le_k
  have hcapacity : shape.b * 2 ≤ shape.capacity := Nat.mul_le_mul_left _ hk
  have hmem := (insertionSort_perm _).mem_iff.mp (mem_of_mem_dedup hi)
  simp only [List.mem_cons, List.not_mem_nil, or_false] at hmem
  omega

variable (poseidon2 masterSecret context customers) in
/-- The path of each leaf passes the check of the path command. -/
theorem selfCheck_eq {shape : Shape} {i : Nat} (hi : i < shape.capacity) :
    selfCheck poseidon2 (treeLeaves poseidon2 masterSecret context customers shape)
        (treeLevels poseidon2 (treeLeaves poseidon2 masterSecret context customers shape))
        (treeRoot poseidon2 masterSecret context customers shape).val shape.depth i = .ok () := by
  have hlength := length_treeLeaves poseidon2 masterSecret context customers shape
  have hpow : i < 2 ^ shape.depth := by rwa [← shape.capacity_eq]
  have hcapacity : shape.capacity < 2 ^ 64 := shape.capacity_lt
  have hindex : (BitVec.ofNat 64 i).toNat = i := by
    rw [BitVec.toNat_ofNat, Nat.mod_eq_of_lt (by omega)]
  have hwalk := @MerkleTree.walk_path _ (nodeHash poseidon2) (fun i =>
    (treeLeaves poseidon2 masterSecret context customers shape).getD i 0) _ _ hpow
  have hleaf : index (treeLeaves poseidon2 masterSecret context customers shape) i =
      .ok ((treeLeaves poseidon2 masterSecret context customers shape).getD i 0) := by
    simp [index, hlength, hpow]
  have hroot : rootOfPath poseidon2
      ((treeLeaves poseidon2 masterSecret context customers shape).getD i 0) i
      (MerkleTree.path (nodeHash poseidon2) (fun i =>
        (treeLeaves poseidon2 masterSecret context customers shape).getD i 0) shape.depth i)
      shape.depth = .ok (ofFr (treeRoot poseidon2 masterSecret context customers shape)) :=
    rootFromPath_eq_ok.mpr ⟨MerkleTree.length_path _ _ _, depth_lt shape, by rwa [hindex],
      by rw [hindex, hwalk, root_treeLeaves]⟩
  unfold selfCheck
  simp only [pathInLevels_eq hlength hpow, hleaf, hroot, bind, Except.bind, toBig_ofFr, if_true]

/-- The path command finds every customer, and prints the root of the same tree. -/
theorem cmdPath_eq {shape : Shape} (hlength : customers.rows.length ≤ shape.capacity) {id : Nat}
    (hid : id ∈ customers.rows.map Prod.fst) :
    ∃ out, cmdPath poseidon2 (configOf shape) context masterSecret customers id = .ok out ∧
      out.root = (treeRoot poseidon2 masterSecret context customers shape).val := by
  obtain ⟨i, hi, hindex⟩ := exists_indexOfCustomer hid
  have hlt : i < shape.capacity := by omega
  have hpow : i < 2 ^ shape.depth := by rwa [← shape.capacity_eq]
  have hleaves : ((List.range shape.capacity).map fun i => (saltOf poseidon2 masterSecret context i,
      hashOf poseidon2 masterSecret context customers i)).map Prod.snd =
        treeLeaves poseidon2 masterSecret context customers shape := by
    rw [List.map_map]
    rfl
  have hsalted : index ((List.range shape.capacity).map fun i =>
      (saltOf poseidon2 masterSecret context i,
        hashOf poseidon2 masterSecret context customers i)) i =
      .ok (saltOf poseidon2 masterSecret context i,
        hashOf poseidon2 masterSecret context customers i) := by
    simp [index, hlt]
  have hcheck := forM_eq_ok fun x hx => selfCheck_eq poseidon2 masterSecret context customers
    (selfCheckIndices_lt hlength hlt x hx)
  unfold cmdPath
  simp only [configOf, hindex, padToCapacity_eq_ok.mpr ⟨hlength, rfl⟩, getElem_rows hlt, bind,
    Except.bind, pure, Except.pure, leavesOfRows_eq, hleaves, hsalted, foldedRoot_treeLeaves,
    toBig_ofFr, trailingZeros_capacity, hcheck,
    pathInLevels_eq (length_treeLeaves _ _ _ _ shape) hpow]
  exact ⟨_, rfl, rfl⟩

/-! ## The aggregator on the batches -/

/-- Padding adds nothing to the sum. -/
theorem sum_rowAt (customers : CustomerList) {n : Nat} (hn : customers.rows.length ≤ n) :
    ∑ i ∈ Finset.range n, (rowAt customers i).2.toNat =
      (customers.rows.map fun row => row.2.toNat).sum := by
  have hlist : ∀ (rows : List Row) (n : Nat), rows.length ≤ n →
      ∑ i ∈ Finset.range n, (rows.getD i
        (ZkPoR.PADDING_LEAF_ID, ZkPoR.PADDING_LEAF_BALANCE)).2.toNat =
          (rows.map fun row => row.2.toNat).sum := by
    intro rows
    induction rows with
    | nil => simp [ZkPoR.PADDING_LEAF_BALANCE]
    | cons row rows ih =>
      intro n hn
      obtain ⟨n, rfl⟩ : ∃ m, n = m + 1 := ⟨n - 1, by rw [List.length_cons] at hn; omega⟩
      rw [Finset.sum_range_succ', List.map_cons, List.sum_cons, ← ih n (by simpa using hn),
        Nat.add_comm]
      rfl
  exact hlist customers.rows n hn

/-- The public inputs of all slots, in slot order. -/
def allPublicInputs (poseidon2 : List Fr → Fr) (masterSecret context : U256)
    (customers : CustomerList) (shape : Shape) : Vector (Vector Fr INNER_PUB_LEN) shape.k :=
  Vector.ofFn fun k => (batchInputs poseidon2 masterSecret context customers shape k).publicInputs

theorem slot_allPublicInputs {shape : Shape} {k : Nat} (hk : k < shape.k) :
    slot (allPublicInputs poseidon2 masterSecret context customers shape) k =
      (batchInputs poseidon2 masterSecret context customers shape k).publicInputs :=
  entry_ofFn hk

theorem castTotal_allPublicInputs (shape : Shape) :
    castTotal (allPublicInputs poseidon2 masterSecret context customers shape) shape.k =
      total (leafOf poseidon2 masterSecret context customers) (shape.k * shape.b) := by
  rw [total_mul]
  refine Finset.sum_congr rfl fun k hmem => ?_
  have hk := Finset.mem_range.mp hmem
  have hblock := block_le hk
  have hsum := total_batch_lt shape
    (batchLeaf poseidon2 masterSecret context customers shape.b k) (n := shape.b) (by omega)
  rw [slot_allPublicInputs hk]
  change (frOfNat (total (batchLeaf poseidon2 masterSecret context customers shape.b k)
    shape.b)).val % 2 ^ 128 = _
  rw [frOfNat_val (hsum.trans lt_frModulus), Nat.mod_eq_of_lt hsum]
  rfl

/-- **The aggregator accepts the batches of the generator.** -/
theorem main_allPublicInputs {shape : Shape} {verify : Verifier} {innerVk : Vector Fr VK_LEN}
    {contextHash : Fr} {proofs : Vector (Vector Fr PROOF_LEN) shape.k}
    (hverify : ∀ k : Fin shape.k, verify innerVk proofs[k]
      (batchInputs poseidon2 masterSecret context customers shape k).publicInputs
      (Agg.vkHash poseidon2 innerVk) = true) :
    Agg.main poseidon2 verify (Agg.vkHash poseidon2 innerVk) contextHash innerVk proofs
        (allPublicInputs poseidon2 masterSecret context customers shape) =
      .ok (Agg.vkHash poseidon2 innerVk, treeRoot poseidon2 masterSecret context customers shape,
        frOfNat (total (leafOf poseidon2 masterSecret context customers) (shape.k * shape.b))) := by
  have hb := shape.b_eq
  refine (Agg.main_eq_ok shape.k_eq).mpr ⟨rfl, fun k hk => ⟨?_, ?_⟩, ?_, ?_⟩
  · rw [slot_allPublicInputs hk]
    rfl
  · rw [slot_allPublicInputs hk, entry_of_lt hk]
    exact hverify ⟨k, hk⟩
  · rw [castTotal_allPublicInputs]
    exact total_batch_lt shape _ (Nat.mul_comm shape.k shape.b).le
  · rw [castTotal_allPublicInputs, treeRoot, Shape.depth, ← MerkleTree.root_of_roots]
    congr 2
    refine MerkleTree.root_congr _ _ fun k hk => ?_
    rw [slot_allPublicInputs (by rwa [shape.k_eq]), ← hb]
    rfl

end Batch

/-! ## The agreement -/

/-- **What the generator and the circuits agree on.**  `w` are the inputs that the
files spell, `leaves` are the leaves of the padded rows, and `finalRoot` and `l`
are the outputs of the aggregator. -/
structure Agreement (poseidon2 : List Fr → Fr) (shape : Shape) (context masterSecret : U256)
    (customers : CustomerList) (files : WitnessFiles) (w : Fin shape.k → Inner.Inputs shape.b)
    (leaves : List U256) (finalRoot l : Fr) : Prop where
  batchB : files.batchB = shape.b
  length : files.provers.length = shape.k
  spells : ∀ k : Fin shape.k, ∃ file, files.provers[k.val]? = some file ∧ file.Spells (w k)
  satisfied : ∀ k, Inner.main poseidon2 (w k) = .ok ()
  rows : ∃ rows salted, padToCapacity customers.rows shape.capacity = .ok rows ∧
    leavesOfRows poseidon2 masterSecret context rows = .ok salted ∧ leaves = salted.map Prod.snd
  aggregates : ∀ verify innerVk contextHash proofs,
    (∀ k : Fin shape.k, verify innerVk proofs[k] (w k).publicInputs
      (Agg.vkHash poseidon2 innerVk) = true) →
    Agg.main poseidon2 verify (Agg.vkHash poseidon2 innerVk) contextHash innerVk proofs
      (Vector.ofFn fun k => (w k).publicInputs) = .ok (Agg.vkHash poseidon2 innerVk, finalRoot, l)
  folded : foldedRoot poseidon2 leaves shape.b = .ok (ofFr finalRoot)
  subtree : Package.subtreeRoot poseidon2 leaves = .ok (ofFr finalRoot)
  sum : l.val = (customers.rows.map fun row => row.2.toNat).sum
  packages : ∃ tree, packageTree poseidon2 (configOf shape) context masterSecret customers =
    .ok tree ∧ tree.leaves = leaves ∧ tree.root = finalRoot.val
  paths : ∀ id ∈ customers.rows.map Prod.fst, ∃ out,
    cmdPath poseidon2 (configOf shape) context masterSecret customers id = .ok out ∧
      out.root = finalRoot.val

section Agreement
variable {poseidon2 : List Fr → Fr} {masterSecret : U256} {customers : CustomerList}

theorem agreement_of_length {shape : Shape} {context : U256}
    (hlength : customers.rows.length ≤ shape.capacity) :
    Agreement poseidon2 shape context masterSecret customers
      ⟨shape.b, (List.range shape.k).map
        (proverFile poseidon2 masterSecret context customers shape)⟩
      (fun k => batchInputs poseidon2 masterSecret context customers shape k)
      (treeLeaves poseidon2 masterSecret context customers shape)
      (treeRoot poseidon2 masterSecret context customers shape)
      (frOfNat (total (leafOf poseidon2 masterSecret context customers) (shape.k * shape.b))) where
  batchB := rfl
  length := by simp
  spells k := ⟨proverFile poseidon2 masterSecret context customers shape k, by simp,
    spells_batchInputs k.isLt⟩
  satisfied k := main_batchInputs k.isLt
  rows := ⟨_, _, padToCapacity_eq_ok.mpr ⟨hlength, rfl⟩, leavesOfRows_eq _, by
    rw [List.map_map]
    rfl⟩
  aggregates _ _ _ _ hverify := main_allPublicInputs hverify
  folded := foldedRoot_treeLeaves shape
  subtree := subtreeRoot_treeLeaves shape
  sum := by
    have hlt := total_batch_lt shape (leafOf poseidon2 masterSecret context customers)
      (Nat.mul_comm shape.k shape.b).le
    rw [frOfNat_val (hlt.trans lt_frModulus)]
    exact sum_rowAt customers (hlength.trans (Nat.mul_comm shape.b shape.k).le)
  packages := packageTree_eq hlength
  paths _ hid := cmdPath_eq hlength hid

/-- Without rows, the loop over one batch stops at its first row. -/
theorem witnessBatch_nil {b batch : Nat} (hb : 0 < b) {context : U256} {file : ProverFile} :
    witnessBatch poseidon2 b context masterSecret [] batch ≠ .ok file := by
  intro h
  unfold witnessBatch at h
  cases hloop : forRange b ⟨[], [], [], [], 0⟩ fun j _ =>
      batchStep poseidon2 b context masterSecret [] batch j with
  | error reason =>
    rw [hloop] at h
    cases h
  | ok s =>
    have hend : b = 0 := forRange_invariant (P := fun j _ => j = 0) rfl
      (fun j hj s s' _ hstep => by cases hstep) hloop
    omega

/-- A capacity that wrapped to zero leaves no row for the first batch, so nothing
is written. -/
theorem cmdWitness_capacity_zero {config : Config} (hzero : config.capacity = 0)
    (hb : 0 < config.b) (hk : 0 < config.k) {context : AttestationContext}
    {prior : Option PriorInput} {network registry : Option String} {files : WitnessFiles} :
    cmdWitness poseidon2 config context masterSecret customers prior network registry ≠
      .ok files := by
  intro h
  unfold cmdWitness at h
  obtain ⟨_, _, h⟩ := bind_eq_ok.mp h
  obtain ⟨rows, hpad, h⟩ := bind_eq_ok.mp h
  obtain ⟨provers, hprovers, -⟩ := bind_eq_ok.mp h
  obtain ⟨-, rfl⟩ := padToCapacity_eq_ok.mp hpad
  obtain ⟨file, hfile⟩ := exists_of_mapM_eq_ok hprovers (List.mem_range.mpr hk)
  rw [hzero] at hfile
  exact witnessBatch_nil hb hfile

/-- **The generator and the circuits agree.**  Whatever the witness command writes
satisfies the inner circuits, and one root and one sum come out of the aggregator,
the two folds, and the other two commands.  The command writes for every list that
fits, when the capacity is a 64-bit integer and the prior tree is not refused. -/
theorem generator_agrees {batchB numBatchesK nodeHashArity : U64} {config : Config}
    (hconfig : readShape batchB numBatchesK nodeHashArity = .ok config)
    (context : AttestationContext) (masterSecret : U256) (customers : CustomerList)
    (prior : Option PriorInput) (network registry : Option String) :
    (∀ files, cmdWitness poseidon2 config context masterSecret customers prior network registry =
        .ok files →
      ∃ shape : Shape, config = configOf shape ∧ ∃ w leaves finalRoot l,
        Agreement poseidon2 shape context.hash masterSecret customers files w leaves finalRoot l) ∧
    (config.b * config.k < 2 ^ 64 → customers.rows.length ≤ config.b * config.k →
      checkPriorOption prior network registry context.asset customers.rows config.capacity =
        .ok () →
      ∃ files, cmdWitness poseidon2 config context masterSecret customers prior network registry =
        .ok files) := by
  obtain ⟨shape, rfl⟩ | ⟨hwrap, hzero⟩ := config_of_readShape hconfig
  · refine ⟨fun files h => ?_, fun _ hlength hprior => ?_⟩
    · obtain ⟨-, hlength, rfl⟩ := cmdWitness_eq_ok.mp h
      exact ⟨shape, rfl, _, _, _, _, agreement_of_length hlength⟩
    · exact ⟨_, cmdWitness_eq_ok.mpr ⟨hprior, hlength, rfl⟩⟩
  · obtain ⟨hb, hk⟩ := two_le_of_readShape hconfig
    exact ⟨fun files h => absurd h (cmdWitness_capacity_zero hzero (by omega) (by omega)),
      fun h => absurd h (by omega)⟩

end Agreement

/-- Three customers, which end inside the second batch of two. -/
def sampleList : CustomerList := ⟨[(11, 100), (12, 200), (13, 300)], rfl⟩

def sampleContext : AttestationContext := ⟨9, "asset", 7⟩

theorem generator_agrees_sample :
    ∃ files, cmdWitness Poseidon2.hash ⟨2, 2, 4⟩ sampleContext 5 sampleList none none none =
        .ok files ∧
      ∃ shape w leaves finalRoot,
        Agreement Poseidon2.hash shape sampleContext.hash 5 sampleList files w leaves finalRoot
          600 := by
  have hconfig : readShape 2 2 2 = .ok ⟨2, 2, 4⟩ := by decide
  obtain ⟨hagree, hwrite⟩ := generator_agrees hconfig sampleContext 5 sampleList none none none
  obtain ⟨files, hfiles⟩ := hwrite (by decide) (by decide) rfl
  obtain ⟨shape, -, w, leaves, finalRoot, l, h⟩ := hagree files hfiles
  obtain rfl : l = 600 := Fin.ext h.sum
  exact ⟨files, hfiles, shape, w, leaves, finalRoot, h⟩

end ZkPoR.Generator
