import ZkPoR.Disputes
import ZkPoR.MerkleTree
import ZkPoR.Poseidon2

/-! # An inclusion is a place in the tree

The contract accepts an evidence under a root exactly when the evidence is the
identifier, the commitment, and the authentication path of one position of the
tree with that root.  Completeness needs nothing.  Soundness needs that nobody
found a collision: the sponge is injective on a set `S` of inputs that contains
what the tree hashed and what the evidence hashes.  No sponge is injective
outright, and `S = Set.univ` is that case.
-/
namespace ZkPoR
open CheckedInt

section
variable (poseidon2 : List Fr → Fr)

/-- The sponge input of an internal node. -/
def nodeInput (q : U256 × U256) : List Fr := [toFr q.1, toFr q.2]

/-- The sponge input of a customer leaf. -/
def leafInput (id commitment : U256) : List Fr :=
  [toFr leafDomainTag, toFr id, toFr commitment]

/-- The customers of one tree, in position order: an identifier and a balance
commitment each. -/
abbrev Customers := List.Vector (Fr × Fr) (2 ^ 12)

/-- The leaf of one position. -/
def customerLeaf (customers : Customers) (i : Nat) : U256 :=
  leafHash poseidon2 (ofFr (customers.toList.getD i (0, 0)).1)
    (ofFr (customers.toList.getD i (0, 0)).2)

/-- The root of the uniform tree over the customer leaves. -/
def customerRoot (customers : Customers) : U256 :=
  MerkleTree.root (nodeHash poseidon2) (customerLeaf poseidon2 customers) 12

/-- Everything that the tree hashes. -/
def treeInputs (customers : Customers) : Set (List Fr) :=
  {x | (∃ p : Fin (2 ^ 12), x = leafInput (ofFr (customers.get p).1) (ofFr (customers.get p).2)) ∨
    ∃ q ∈ MerkleTree.treePairs (nodeHash poseidon2) (customerLeaf poseidon2 customers) 12,
      x = nodeInput q}

/-- Everything that the check of an evidence hashes. -/
def evidenceInputs (e : InclusionEvidence) : Set (List Fr) :=
  {x | x = leafInput e.id e.commitment ∨
    ∃ q ∈ MerkleTree.walkPairs (nodeHash poseidon2) (leafHash poseidon2 e.id e.commitment)
      e.position.toNat e.path, x = nodeInput q}

/-- The evidence is that of position `p`. -/
structure IsPlace (customers : Customers) (e : InclusionEvidence) (p : Fin (2 ^ 12)) : Prop where
  position : e.position.toNat = p.val
  id : e.id = ofFr (customers.get p).1
  commitment : e.commitment = ofFr (customers.get p).2
  path : e.path =
    MerkleTree.path (nodeHash poseidon2) (customerLeaf poseidon2 customers) 12 p.val

variable {poseidon2}

/-! ## The loop of the contract is the walk of the library -/

theorem and_one_eq_zero (position : U32) : position &&& 1 = 0 ↔ position.toNat % 2 = 0 := by
  rw [← BitVec.toNat_inj, BitVec.toNat_and]
  change position.toNat &&& 1 = 0 ↔ _
  rw [Nat.and_one_is_mod]

theorem inclusionWalk_eq_ok {hash out : U256} {position : U32} {path : List U256} :
    inclusionWalk poseidon2 hash position path = .ok out ↔
      (∀ sibling ∈ path, frInRange sibling) ∧
        MerkleTree.walk (nodeHash poseidon2) hash position.toNat path = out := by
  induction path generalizing hash position with
  | nil => simp [inclusionWalk, MerkleTree.walk]
  | cons sibling path ih =>
    have hshift : (position >>> 1).toNat = position.toNat / 2 := by
      rw [BitVec.toNat_ushiftRight, Nat.shiftRight_eq_div_pow, pow_one]
    have hnode : (if position &&& 1 = 0 then nodeHash poseidon2 hash sibling
          else nodeHash poseidon2 sibling hash) =
        nodeHash poseidon2 (MerkleTree.pairUp hash position.toNat sibling).1
          (MerkleTree.pairUp hash position.toNat sibling).2 := by
      simp only [and_one_eq_zero, MerkleTree.pairUp]
      split <;> rfl
    rw [inclusionWalk, MerkleTree.walk, List.forall_mem_cons]
    by_cases hrange : frInRange sibling
    · rw [if_neg (not_not.mpr hrange), hnode, ih, hshift]
      simp [hrange]
    · simp [hrange]

/-- What the contract checks, guard by guard. -/
theorem inclusion_eq_ok {root : U256} {e : InclusionEvidence} :
    inclusion poseidon2 root e = .ok () ↔
      e.path.length = 12 ∧ e.position.toNat < 2 ^ 12 ∧ e.id ≠ 0 ∧ frInRange e.id ∧
        frInRange e.commitment ∧ (∀ sibling ∈ e.path, frInRange sibling) ∧
        MerkleTree.walk (nodeHash poseidon2) (leafHash poseidon2 e.id e.commitment)
          e.position.toNat e.path = root := by
  have hshift : checkedShr e.position MERKLE_PATH_DEPTH = some 0 ↔ e.position.toNat < 2 ^ 12 :=
    checkedShr_eq_zero (by decide)
  unfold inclusion
  split
  · rename_i h
    rw [ne_eq, ne_eq, hshift] at h
    simp only [reduceCtorEq, false_iff]
    rintro ⟨h1, h2, h3, h4, h5, -⟩
    rcases h with h | h | h | h | h
    · exact h h1
    · exact h h2
    · exact h3 h
    · exact h h4
    · exact h h5
  · rename_i h
    simp only [ne_eq, hshift, not_or, not_not] at h
    obtain ⟨h1, h2, h3, h4, h5⟩ := h
    cases hwalk : inclusionWalk poseidon2 (leafHash poseidon2 e.id e.commitment) e.position
        e.path with
    | error reason =>
      simp only [reduceCtorEq, false_iff]
      rintro ⟨-, -, -, -, -, hrange, -⟩
      rw [inclusionWalk_eq_ok.mpr ⟨hrange, rfl⟩] at hwalk
      cases hwalk
    | ok out =>
      obtain ⟨hrange, rfl⟩ := inclusionWalk_eq_ok.mp hwalk
      dsimp only
      split
      · rename_i hne
        simp [hne]
      · rename_i heq
        simp only [true_iff]
        exact ⟨h1, h2, h3, h4, h5, hrange, not_not.mp heq⟩

/-! ## Canonical values -/

theorem frInRange_nodeHash (l r : U256) : frInRange (nodeHash poseidon2 l r) :=
  frInRange_hash poseidon2 _

theorem frInRange_leafHash (id commitment : U256) :
    frInRange (leafHash poseidon2 id commitment) := frInRange_hash poseidon2 _

theorem frInRange_nodeAt {leaf : Nat → U256} (hleaf : ∀ i, frInRange (leaf i)) (k j : Nat) :
    frInRange (MerkleTree.nodeAt (nodeHash poseidon2) leaf k j) := by
  cases k with
  | zero => exact hleaf j
  | succ k => exact frInRange_nodeHash _ _

theorem frInRange_pathFrom {leaf : Nat → U256} (hleaf : ∀ i, frInRange (leaf i)) (k d j : Nat) :
    ∀ sibling ∈ MerkleTree.pathFrom (nodeHash poseidon2) leaf k d j, frInRange sibling := by
  induction d generalizing k j with
  | zero => simp [MerkleTree.pathFrom]
  | succ d ih =>
    rw [MerkleTree.pathFrom, List.forall_mem_cons]
    exact ⟨frInRange_nodeAt hleaf _ _, ih _ _⟩

theorem frInRange_customerLeaf (customers : Customers) (i : Nat) :
    frInRange (customerLeaf poseidon2 customers i) := frInRange_leafHash _ _

/-- The pairs of canonical values whose input is in `S`. -/
def canonicalPairs (S : Set (List Fr)) : Set (U256 × U256) :=
  {q | frInRange q.1 ∧ frInRange q.2 ∧ nodeInput q ∈ S}

theorem eq_of_toFr {x y : U256} (hx : frInRange x) (hy : frInRange y) (h : toFr x = toFr y) :
    x = y := by
  rw [← ofFr_toFr hx, ← ofFr_toFr hy, h]

/-- On canonical values, a sponge without collisions is a node hash without
collisions. -/
theorem injOn_nodeHash {S : Set (List Fr)} (hS : Set.InjOn poseidon2 S) :
    Set.InjOn (fun q => nodeHash poseidon2 q.1 q.2) (canonicalPairs S) := by
  rintro ⟨l, r⟩ ⟨hl, hr, hmem⟩ ⟨l', r'⟩ ⟨hl', hr', hmem'⟩ h
  have hinput := hS hmem hmem' (ofFr_injective h)
  simp only [nodeInput, List.cons.injEq, and_true] at hinput
  rw [Prod.mk.injEq]
  exact ⟨eq_of_toFr hl hl' hinput.1, eq_of_toFr hr hr' hinput.2⟩

/-- A walk from a canonical value along canonical siblings hashes canonical pairs. -/
theorem walkPairs_frInRange {x : U256} {i : Nat} {path : List U256} (hx : frInRange x)
    (hpath : ∀ sibling ∈ path, frInRange sibling) :
    ∀ q ∈ MerkleTree.walkPairs (nodeHash poseidon2) x i path,
      frInRange q.1 ∧ frInRange q.2 := by
  induction path generalizing x i with
  | nil => simp [MerkleTree.walkPairs]
  | cons sibling path ih =>
    rw [List.forall_mem_cons] at hpath
    rw [MerkleTree.walkPairs, List.forall_mem_cons]
    refine ⟨?_, ih (frInRange_nodeHash _ _) hpath.2⟩
    unfold MerkleTree.pairUp
    split
    · exact ⟨hx, hpath.1⟩
    · exact ⟨hpath.1, hx⟩

/-- **A walk to the root of a tree binds.**  Among the inputs `S` the sponge has no
collision, so the walk used the leaf of its position and the path of the tree. -/
theorem walk_binds {S : Set (List Fr)} (hS : Set.InjOn poseidon2 S) {leaf : Nat → U256} {d : Nat}
    (hleaf : ∀ i, frInRange (leaf i))
    (htree : ∀ q ∈ MerkleTree.treePairs (nodeHash poseidon2) leaf d, nodeInput q ∈ S)
    {x : U256} {i : Nat} {path : List U256} (hx : frInRange x)
    (hpath : ∀ sibling ∈ path, frInRange sibling)
    (hpairs : ∀ q ∈ MerkleTree.walkPairs (nodeHash poseidon2) x i path, nodeInput q ∈ S)
    (hlength : path.length = d) (hi : i < 2 ^ d)
    (hwalk : MerkleTree.walk (nodeHash poseidon2) x i path =
      MerkleTree.root (nodeHash poseidon2) leaf d) :
    x = leaf i ∧ path = MerkleTree.path (nodeHash poseidon2) leaf d i := by
  have htree' : MerkleTree.treePairs (nodeHash poseidon2) leaf d ⊆ canonicalPairs S := by
    intro q hq
    obtain ⟨k, j, _, _, rfl⟩ := id hq
    exact ⟨frInRange_nodeAt hleaf _ _, frInRange_nodeAt hleaf _ _, htree _ hq⟩
  have hpairs' : ∀ q ∈ MerkleTree.walkPairs (nodeHash poseidon2) x i path,
      q ∈ canonicalPairs S := by
    intro q hq
    have hrange := walkPairs_frInRange hx hpath q hq
    exact ⟨hrange.1, hrange.2, hpairs q hq⟩
  exact MerkleTree.walk_sound (injOn_nodeHash hS) htree' hlength hi hpairs' hwalk

/-! ## The two directions -/

theorem customerLeaf_get (customers : Customers) (p : Fin (2 ^ 12)) :
    customerLeaf poseidon2 customers p.val =
      leafHash poseidon2 (ofFr (customers.get p).1) (ofFr (customers.get p).2) := by
  have hp : customers.toList.getD p.val (0, 0) = customers.get p := by
    have hlt : p.val < customers.toList.length := by
      rw [customers.toList_length]
      exact p.isLt
    rw [List.getD_eq_getElem?_getD, List.getElem?_eq_getElem hlt, List.Vector.get_eq_get_toList]
    rfl
  rw [customerLeaf, hp]

/-- **Completeness.**  The evidence of a position with an identifier is accepted. -/
theorem inclusion_of_isPlace {customers : Customers} {e : InclusionEvidence} {p : Fin (2 ^ 12)}
    (h : IsPlace poseidon2 customers e p) (hid : e.id ≠ 0) :
    inclusion poseidon2 (customerRoot poseidon2 customers) e = .ok () := by
  rw [inclusion_eq_ok, h.path, h.position, MerkleTree.length_path]
  refine ⟨rfl, p.isLt, hid, ?_, ?_, frInRange_pathFrom (frInRange_customerLeaf customers) _ _ _, ?_⟩
  · rw [h.id]
    exact frInRange_ofFr _
  · rw [h.commitment]
    exact frInRange_ofFr _
  · rw [h.id, h.commitment, ← customerLeaf_get]
    exact MerkleTree.walk_path (nodeHash poseidon2) p.isLt

/-- The evidence of a position hashes nothing that the tree did not hash. -/
theorem evidenceInputs_of_isPlace {customers : Customers} {e : InclusionEvidence}
    {p : Fin (2 ^ 12)} (h : IsPlace poseidon2 customers e p) :
    evidenceInputs poseidon2 e ⊆ treeInputs poseidon2 customers := by
  rintro x (rfl | ⟨q, hq, rfl⟩)
  · exact .inl ⟨p, by rw [h.id, h.commitment]⟩
  · rw [h.id, h.commitment, ← customerLeaf_get, h.position, h.path] at hq
    exact .inr ⟨q, MerkleTree.walkPairs_path (nodeHash poseidon2) p.isLt hq, rfl⟩

/-- **Soundness.**  Without a collision among the inputs, an accepted evidence is
that of a position. -/
theorem isPlace_of_inclusion {S : Set (List Fr)} (hS : Set.InjOn poseidon2 S)
    {customers : Customers} (htree : treeInputs poseidon2 customers ⊆ S) {e : InclusionEvidence}
    (he : evidenceInputs poseidon2 e ⊆ S)
    (h : inclusion poseidon2 (customerRoot poseidon2 customers) e = .ok ()) :
    e.id ≠ 0 ∧ ∃ p, IsPlace poseidon2 customers e p := by
  obtain ⟨hlength, hposition, hid, hidRange, hcommitment, hpath, hwalk⟩ := inclusion_eq_ok.mp h
  obtain ⟨hleaf, hsiblings⟩ := walk_binds hS (frInRange_customerLeaf customers)
    (fun q hq => htree (.inr ⟨q, hq, rfl⟩)) (frInRange_leafHash _ _) hpath
    (fun q hq => he (.inr ⟨q, hq, rfl⟩)) hlength hposition hwalk
  let p : Fin (2 ^ 12) := ⟨e.position.toNat, hposition⟩
  rw [show e.position.toNat = p.val from rfl, customerLeaf_get] at hleaf
  have hinput := hS (he (.inl rfl)) (htree (.inl ⟨p, rfl⟩)) (ofFr_injective hleaf)
  simp only [leafInput, List.cons.injEq, and_true, true_and] at hinput
  exact ⟨hid, p, rfl, eq_of_toFr hidRange (frInRange_ofFr _) hinput.1,
    eq_of_toFr hcommitment (frInRange_ofFr _) hinput.2, hsiblings⟩

/-- The evidence of position `p`. -/
def placeEvidence (poseidon2 : List Fr → Fr) (customers : Customers) (p : Fin (2 ^ 12)) :
    InclusionEvidence where
  id := ofFr (customers.get p).1
  commitment := ofFr (customers.get p).2
  path := MerkleTree.path (nodeHash poseidon2) (customerLeaf poseidon2 customers) 12 p.val
  position := BitVec.ofNat 32 p.val

theorem isPlace_placeEvidence (customers : Customers) (p : Fin (2 ^ 12)) :
    IsPlace poseidon2 customers (placeEvidence poseidon2 customers p) p where
  position := by
    have := p.isLt
    change (BitVec.ofNat 32 p.val).toNat = _
    rw [BitVec.toNat_ofNat, Nat.mod_eq_of_lt (by omega)]
  id := rfl
  commitment := rfl
  path := rfl

/-- **A dispute is answerable exactly when the customer is in the tree.**  Among
the inputs `S` the sponge has no collision.  An evidence is accepted exactly when
it is that of a position with an identifier, and an identifier has an accepted
evidence exactly when it is that of a customer and not the padding one. -/
theorem inclusion_exact {S : Set (List Fr)} (hS : Set.InjOn poseidon2 S) (customers : Customers)
    (htree : treeInputs poseidon2 customers ⊆ S) :
    (∀ e, evidenceInputs poseidon2 e ⊆ S →
      (inclusion poseidon2 (customerRoot poseidon2 customers) e = .ok () ↔
        e.id ≠ 0 ∧ ∃ p, IsPlace poseidon2 customers e p)) ∧
    ∀ x, (∃ e, e.id = x ∧ evidenceInputs poseidon2 e ⊆ S ∧
        inclusion poseidon2 (customerRoot poseidon2 customers) e = .ok ()) ↔
      x ≠ 0 ∧ ∃ p, x = ofFr (customers.get p).1 := by
  have hiff : ∀ e, evidenceInputs poseidon2 e ⊆ S →
      (inclusion poseidon2 (customerRoot poseidon2 customers) e = .ok () ↔
        e.id ≠ 0 ∧ ∃ p, IsPlace poseidon2 customers e p) := fun e he =>
    ⟨isPlace_of_inclusion hS htree he, fun ⟨hid, _, hplace⟩ => inclusion_of_isPlace hplace hid⟩
  refine ⟨hiff, fun x => ⟨?_, ?_⟩⟩
  · rintro ⟨e, rfl, he, h⟩
    obtain ⟨hid, p, hplace⟩ := (hiff e he).mp h
    exact ⟨hid, p, hplace.id⟩
  · rintro ⟨hx, p, rfl⟩
    have hplace := @isPlace_placeEvidence poseidon2 customers p
    exact ⟨_, rfl, (evidenceInputs_of_isPlace hplace).trans htree,
      inclusion_of_isPlace hplace hx⟩

end

/-! ## A tree of equal leaves

The hash of the protocol has no collision on the thirteen inputs of the tree
whose customers are all equal, so the assumption of `inclusion_exact` can be met.
-/

/-- The identifier and the commitment of the sample customers. -/
def sampleCustomer : Fr × Fr := (7, 5)

def sampleCustomers : Customers := List.Vector.replicate (2 ^ 12) sampleCustomer

def sampleLeaf : U256 :=
  leafHash Poseidon2.hash (ofFr sampleCustomer.1) (ofFr sampleCustomer.2)

/-- The values of the sample tree, by height. -/
def sampleNode : Nat → U256 := MerkleTree.uniform (nodeHash Poseidon2.hash) sampleLeaf

/-- The inputs of the sample tree, by height. -/
def sampleInput : Nat → List Fr
  | 0 => leafInput (ofFr sampleCustomer.1) (ofFr sampleCustomer.2)
  | k + 1 => nodeInput (sampleNode k, sampleNode k)

theorem hash_sampleInput (k : Nat) :
    ofFr (Poseidon2.hash (sampleInput k)) = sampleNode k := by
  cases k <;> rfl

theorem sampleNode_nodup : ((List.range 13).map sampleNode).Nodup := by
  decide +kernel

theorem customerLeaf_sample {i : Nat} (hi : i < 2 ^ 12) :
    customerLeaf Poseidon2.hash sampleCustomers i = sampleLeaf := by
  have h := @customerLeaf_get Poseidon2.hash sampleCustomers ⟨i, hi⟩
  rw [sampleCustomers, List.Vector.get_replicate] at h
  exact h

theorem treeInputs_sample : treeInputs Poseidon2.hash sampleCustomers ⊆
    {x | ∃ k < 13, x = sampleInput k} := by
  rintro x (⟨p, rfl⟩ | ⟨q, hq, rfl⟩)
  · refine ⟨0, by omega, ?_⟩
    rw [sampleCustomers, List.Vector.get_replicate]
    rfl
  · obtain ⟨k, hk, rfl⟩ :=
      MerkleTree.treePairs_uniform _ (fun i hi => customerLeaf_sample hi) hq
    exact ⟨k + 1, by omega, rfl⟩

theorem injOn_sample : Set.InjOn Poseidon2.hash (treeInputs Poseidon2.hash sampleCustomers) := by
  intro x hx y hy h
  obtain ⟨i, hi, rfl⟩ := treeInputs_sample hx
  obtain ⟨j, hj, rfl⟩ := treeInputs_sample hy
  have hnode : sampleNode i = sampleNode j := by
    rw [← hash_sampleInput, ← hash_sampleInput, h]
  have hij := List.inj_on_of_nodup_map sampleNode_nodup (List.mem_range.mpr hi)
    (List.mem_range.mpr hj) hnode
  rw [hij]

/-- The sample customer has an accepted evidence, and nobody else has one. -/
theorem inclusion_exact_sample :
    (∃ e, e.id = 7 ∧ evidenceInputs Poseidon2.hash e ⊆ treeInputs Poseidon2.hash sampleCustomers ∧
      inclusion Poseidon2.hash (customerRoot Poseidon2.hash sampleCustomers) e = .ok ()) ∧
    ¬ ∃ e, e.id = 8 ∧
      evidenceInputs Poseidon2.hash e ⊆ treeInputs Poseidon2.hash sampleCustomers ∧
      inclusion Poseidon2.hash (customerRoot Poseidon2.hash sampleCustomers) e = .ok () := by
  have h := (inclusion_exact injOn_sample sampleCustomers subset_rfl).2
  refine ⟨(h 7).mpr ⟨by decide, ⟨0, by norm_num⟩, ?_⟩, fun hex => ?_⟩
  · rw [sampleCustomers, List.Vector.get_replicate]
    decide +kernel
  · obtain ⟨-, p, hp⟩ := (h 8).mp hex
    rw [sampleCustomers, List.Vector.get_replicate] at hp
    exact absurd hp (by decide +kernel)

end ZkPoR
