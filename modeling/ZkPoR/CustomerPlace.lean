import ZkPoR.Inclusion

/-! # The place of a customer

What a customer check establishes, for a tree of any depth: the leaf at one
position holds one identifier and one commitment, and the commitment opens to one
balance and one salt.  The values that a check works on are a `PlaceClaim`;
`isPlace_of_walk` turns a walk to the root of a tree into the place.
-/
namespace ZkPoR
open CheckedInt

/-- The sponge input of a balance commitment. -/
def balanceInput (balance : U64) (salt : U256) : List Fr :=
  [toFr balanceDomainTag, toFr (BitVec.ofNat 256 balance.toNat), toFr salt]

/-- The values of one customer file that a check hashes. -/
structure PlaceClaim where
  index : Nat
  id : U256
  commitment : U256
  balance : U64
  salt : U256
  siblings : List U256

/-- Every value is a field element. -/
structure PlaceClaim.Canonical (c : PlaceClaim) : Prop where
  id : frInRange c.id
  commitment : frInRange c.commitment
  salt : frInRange c.salt
  siblings : ∀ sibling ∈ c.siblings, frInRange sibling

section
variable (poseidon2 : List Fr → Fr)

/-- The leaf at one position of a tree over customers, an identifier and a balance
commitment each. -/
def leafOf (customers : Nat → Fr × Fr) (i : Nat) : U256 :=
  leafHash poseidon2 (ofFr (customers i).1) (ofFr (customers i).2)

/-- The root of the uniform tree over the first `2 ^ d` customers. -/
def rootOf (customers : Nat → Fr × Fr) (d : Nat) : U256 :=
  MerkleTree.root (nodeHash poseidon2) (leafOf poseidon2 customers) d

/-- Everything that the tree hashes. -/
def hashedByTree (customers : Nat → Fr × Fr) (d : Nat) : Set (List Fr) :=
  {x | (∃ i < 2 ^ d, x = leafInput (ofFr (customers i).1) (ofFr (customers i).2)) ∨
    ∃ q ∈ MerkleTree.treePairs (nodeHash poseidon2) (leafOf poseidon2 customers) d,
      x = nodeInput q}

/-- Everything that the check of a claim hashes. -/
def PlaceClaim.hashed (c : PlaceClaim) : Set (List Fr) :=
  {x | x = balanceInput c.balance c.salt ∨ x = leafInput c.id c.commitment ∨
    ∃ q ∈ MerkleTree.walkPairs (nodeHash poseidon2) (leafHash poseidon2 c.id c.commitment) c.index
      c.siblings, x = nodeInput q}

/-- The tree of depth `d` holds the claim: the leaf at its index has its identifier
and its commitment, which opens to its balance and its salt and, among the inputs
`S`, to nothing else. -/
structure IsPlaceOf (S : Set (List Fr)) (customers : Nat → Fr × Fr) (d : Nat) (c : PlaceClaim) :
    Prop where
  index : c.index < 2 ^ d
  id : ofFr (customers c.index).1 = c.id
  commitment : ofFr (customers c.index).2 = c.commitment
  opens : balanceCommitment poseidon2 c.balance c.salt = ofFr (customers c.index).2
  binds : ∀ balance salt, frInRange salt → balanceInput balance salt ∈ S →
    balanceCommitment poseidon2 balance salt = ofFr (customers c.index).2 →
      balance = c.balance ∧ salt = c.salt

variable {poseidon2}

theorem frInRange_leafOf (customers : Nat → Fr × Fr) (i : Nat) :
    frInRange (leafOf poseidon2 customers i) := frInRange_leafHash _ _

/-- A 64-bit balance is a field element. -/
theorem frInRange_balance (balance : U64) : frInRange (BitVec.ofNat 256 balance.toNat) := by
  have hlt : balance.toNat < 2 ^ 64 := balance.isLt
  have h64 : (2 : Nat) ^ 64 < frModulus := by decide
  unfold frInRange
  rw [BitVec.toNat_ofNat, Nat.mod_eq_of_lt (by omega)]
  omega

/-- A balance input names its balance and its salt. -/
theorem balanceInput_inj {balance balance' : U64} {salt salt' : U256} (hsalt : frInRange salt)
    (hsalt' : frInRange salt') (h : balanceInput balance salt = balanceInput balance' salt') :
    balance = balance' ∧ salt = salt' := by
  simp only [balanceInput, List.cons.injEq, and_true, true_and] at h
  have hbalance := eq_of_toFr (frInRange_balance balance) (frInRange_balance balance') h.1
  refine ⟨BitVec.eq_of_toNat_eq ?_, eq_of_toFr hsalt hsalt' h.2⟩
  have hnat := congrArg BitVec.toNat hbalance
  have hlt : ∀ x : U64, x.toNat < 2 ^ 256 := fun x => x.isLt.trans (by norm_num)
  rwa [BitVec.toNat_ofNat, BitVec.toNat_ofNat, Nat.mod_eq_of_lt (hlt _),
    Nat.mod_eq_of_lt (hlt _)] at hnat

/-- **A walk to the root of a tree proves the place.**  Among the inputs `S` the
sponge has no collision. -/
theorem isPlaceOf_of_walk {S : Set (List Fr)} (hS : Set.InjOn poseidon2 S)
    {customers : Nat → Fr × Fr} {d : Nat} (htree : hashedByTree poseidon2 customers d ⊆ S)
    {c : PlaceClaim} (hcanonical : c.Canonical) (hclaim : c.hashed poseidon2 ⊆ S)
    (hlength : c.siblings.length = d) (hindex : c.index < 2 ^ d)
    (hopens : balanceCommitment poseidon2 c.balance c.salt = c.commitment)
    (hwalk : MerkleTree.walk (nodeHash poseidon2) (leafHash poseidon2 c.id c.commitment) c.index
      c.siblings = rootOf poseidon2 customers d) :
    IsPlaceOf poseidon2 S customers d c := by
  obtain ⟨hleaf, -⟩ := walk_binds hS (frInRange_leafOf customers)
    (fun q hq => htree (.inr ⟨q, hq, rfl⟩)) (frInRange_leafHash _ _) hcanonical.siblings
    (fun q hq => hclaim (.inr (.inr ⟨q, hq, rfl⟩))) hlength hindex hwalk
  have hinput := hS (hclaim (.inr (.inl rfl))) (htree (.inl ⟨_, hindex, rfl⟩))
    (ofFr_injective hleaf)
  simp only [leafInput, List.cons.injEq, and_true, true_and] at hinput
  have hid := eq_of_toFr hcanonical.id (frInRange_ofFr _) hinput.1
  have hcommitment := eq_of_toFr hcanonical.commitment (frInRange_ofFr _) hinput.2
  refine ⟨hindex, hid.symm, hcommitment.symm, hopens.trans hcommitment, ?_⟩
  intro balance salt hsalt hmem h
  have hsame : balanceCommitment poseidon2 balance salt =
      balanceCommitment poseidon2 c.balance c.salt :=
    h.trans (hopens.trans hcommitment).symm
  exact balanceInput_inj hsalt hcanonical.salt
    (hS hmem (hclaim (.inl rfl)) (ofFr_injective hsame))

end
end ZkPoR
