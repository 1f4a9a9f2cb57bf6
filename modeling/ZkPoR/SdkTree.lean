import ZkPoR.CustomerPlace
import ZkPoR.FieldText

/-! # The hashes and the path walk of the SDK

The SDK computes on integers of any size, and every function checks that its
arguments are field elements.  On field elements the hashes are those of the
protocol and `rootFromPath` is the walk of the tree.
-/
namespace ZkPoR.Sdk
open CheckedInt BoundedLoop

def MAX_U64 : Nat := 2 ^ 64 - 1
def MAX_U32 : Nat := 4294967295

/-- True when the value is a field element. -/
def inRange (value : Nat) : Prop := value < frModulus

instance (value : Nat) : Decidable (inRange value) := inferInstanceAs (Decidable (_ < _))

def check (p : Prop) [Decidable p] (reason : String) : Except String Unit :=
  if p then .ok () else .error reason

section Definitions
variable (poseidon2 : List Fr → Fr)

/-- Hashes `n` field elements with the fixed-length form. -/
def hash (inputs : List Nat) : Except String Nat := do
  check (inputs ≠ []) "the hash takes at least one input"
  match inputs.zipIdx.find? fun input => ¬ inRange input.1 with
  | some (_, index) => .error s!"hash input {index} is not a field element"
  | none => .ok (poseidon2 (inputs.map frOfNat)).val

/-- The commitment to one customer balance. -/
def balanceCommitment (balance salt : Nat) : Except String Nat := do
  check (balance ≤ MAX_U64) "the balance is not a u64"
  check (inRange salt) "the salt is not a field element"
  hash poseidon2 [balanceDomainTag.toNat, balance, salt]

/-- The leaf that binds one identifier to a balance commitment. -/
def leafHash (id commitment : Nat) : Except String Nat := do
  check (inRange id) "the identifier is not a field element"
  check (inRange commitment) "the commitment is not a field element"
  hash poseidon2 [leafDomainTag.toNat, id, commitment]

/-- The parent of two nodes of the liabilities tree. -/
def nodeHash (left right : Nat) : Except String Nat := hash poseidon2 [left, right]

/-- The parent of a node and its sibling; bit `level` of the index says which of them
is the left input. -/
def parentOf (index level node sibling : Nat) : Except String Nat :=
  if (index >>> level) &&& 1 = 0 then nodeHash poseidon2 node sibling
  else nodeHash poseidon2 sibling node

/-- The loop of the walk, from one level on. -/
def walkFrom (index : Nat) : Nat → Nat → List Nat → Except String Nat
  | _, node, [] => .ok node
  | level, node, sibling :: siblings => do
    check (inRange sibling) s!"the sibling hash at level {level} is not a field element"
    let node ← parentOf poseidon2 index level node sibling
    walkFrom index (level + 1) node siblings

/-- Walks a path from a leaf to the root. -/
def rootFromPath (leaf leafIndex : Nat) (siblings : List Nat) (depth : Nat) :
    Except String Nat := do
  check (1 ≤ depth) "a tree depth is at least one level"
  check (siblings.length = depth) (s!"a path of a tree of depth {depth} holds {depth} sibling " ++
    s!"hashes, not {siblings.length}")
  check (leafIndex < 2 ^ depth) s!"the leaf index {leafIndex} is outside a tree of depth {depth}"
  check (inRange leaf) "the leaf is not a field element"
  walkFrom poseidon2 leafIndex 0 leaf siblings

/-- The parent of one pair of a level, of which either can be missing. -/
def parentOfPair (left right : Option Nat) : Except String Nat :=
  match left, right with
  | some left, some right => nodeHash poseidon2 left right
  | _, _ => .error "a level of the tree lost an element"

/-- One pass of the fold.  The loop runs while `pair < level.length / 2`, on real
numbers. -/
def nextLevel (level : List Nat) : Except String (List Nat) :=
  (List.range ((level.length + 1) / 2)).mapM fun pair =>
    parentOfPair poseidon2 level[2 * pair]? level[2 * pair + 1]?

theorem length_nextLevel {level next : List Nat} (h : nextLevel poseidon2 level = .ok next) :
    next.length = (level.length + 1) / 2 := by
  rw [length_of_mapM h, List.length_range]

/-- The loop of the fold. -/
def foldLevels (level : List Nat) : Except String (List Nat) :=
  if 1 < level.length then
    match _h : nextLevel poseidon2 level with
    | .error reason => .error reason
    | .ok next => foldLevels next
  else .ok level
termination_by level.length
decreasing_by
  rw [length_nextLevel poseidon2 _h]
  omega

/-- The root of a full binary tree over the leaves.  An array has fewer than `2 ^ 32`
elements, so the bit test on 32-bit integers is the one on natural numbers. -/
def treeRoot (leaves : List Nat) : Except String Nat := do
  check (2 ≤ leaves.length ∧ leaves.length &&& (leaves.length - 1) = 0)
    "a tree holds a power of two leaves, at least two"
  let level ← foldLevels poseidon2 leaves
  match level.head? with
  | none => .error "the fold produced no root"
  | some root => .ok root

end Definitions

/-! ## On field elements -/

section
variable {poseidon2 : List Fr → Fr}

theorem check_eq_ok {p : Prop} [Decidable p] {reason : String} {u : Unit} :
    check p reason = .ok u ↔ p := by
  unfold check
  split <;> simp_all

theorem check_of {p : Prop} [Decidable p] {reason : String} (h : p) : check p reason = .ok () :=
  check_eq_ok.mpr h

/-- **The hash of the SDK is the hash of the protocol.** -/
theorem hash_eq {inputs : List U256} (hne : inputs ≠ []) (h : ∀ x ∈ inputs, frInRange x) :
    hash poseidon2 (inputs.map BitVec.toNat) = .ok (ZkPoR.hash poseidon2 inputs).toNat := by
  have hnone : ((inputs.map BitVec.toNat).zipIdx.find? fun input => ¬ inRange input.1) = none := by
    rw [List.find?_eq_none]
    rintro ⟨v, i⟩ hmem
    obtain ⟨x, hx, rfl⟩ := List.mem_map.mp (List.fst_mem_of_mem_zipIdx hmem)
    have hx' : inRange x.toNat := h x hx
    simpa using hx'
  have hmap : (inputs.map BitVec.toNat).map frOfNat = inputs.map toFr := by
    rw [List.map_map]
    rfl
  have hne' : inputs.map BitVec.toNat ≠ [] := by simpa using hne
  refine bind_eq_ok.mpr ⟨(), check_of hne', ?_⟩
  rw [hnone, hmap, ZkPoR.hash, toNat_ofFr]

theorem nodeHash_eq {left right : U256} (hl : frInRange left) (hr : frInRange right) :
    nodeHash poseidon2 left.toNat right.toNat = .ok (ZkPoR.nodeHash poseidon2 left right).toNat :=
  @hash_eq poseidon2 [left, right] (by simp) (by simp [hl, hr])

theorem leafHash_eq {id commitment : U256} (hid : frInRange id) (hcommitment : frInRange commitment) :
    leafHash poseidon2 id.toNat commitment.toNat =
      .ok (ZkPoR.leafHash poseidon2 id commitment).toNat := by
  have htag : frInRange leafDomainTag := by decide +kernel
  have hhash := @hash_eq poseidon2 [leafDomainTag, id, commitment] (by simp)
    (by simp [htag, hid, hcommitment])
  exact bind_eq_ok.mpr ⟨(), check_of hid, bind_eq_ok.mpr ⟨(), check_of hcommitment, hhash⟩⟩

theorem balanceCommitment_eq {balance : U64} {salt : U256} (hsalt : frInRange salt) :
    balanceCommitment poseidon2 balance.toNat salt.toNat =
      .ok (ZkPoR.balanceCommitment poseidon2 balance salt).toNat := by
  have htag : frInRange balanceDomainTag := by decide +kernel
  have hlt : balance.toNat < 2 ^ 64 := balance.isLt
  have hbound : balance.toNat ≤ MAX_U64 := Nat.le_pred_of_lt hlt
  have hnat : (BitVec.ofNat 256 balance.toNat).toNat = balance.toNat := by
    rw [BitVec.toNat_ofNat, Nat.mod_eq_of_lt (by omega)]
  have hall : ∀ x ∈ [balanceDomainTag, BitVec.ofNat 256 balance.toNat, salt], frInRange x :=
    List.forall_mem_cons.mpr ⟨htag, List.forall_mem_cons.mpr ⟨frInRange_balance balance,
      List.forall_mem_singleton.mpr hsalt⟩⟩
  have hhash := @hash_eq poseidon2 _ (by simp) hall
  simp only [List.map_cons, List.map_nil, hnat] at hhash
  exact bind_eq_ok.mpr ⟨(), check_of hbound, bind_eq_ok.mpr ⟨(), check_of hsalt, hhash⟩⟩

theorem parentOf_eq {index level : Nat} {node sibling : U256} (hnode : frInRange node)
    (hsibling : frInRange sibling) :
    parentOf poseidon2 index level node.toNat sibling.toNat =
      .ok (ZkPoR.nodeHash poseidon2 (MerkleTree.pairUp node (index / 2 ^ level) sibling).1
        (MerkleTree.pairUp node (index / 2 ^ level) sibling).2).toNat := by
  simp only [parentOf, MerkleTree.pairUp, Nat.shiftRight_eq_div_pow, Nat.and_one_is_mod]
  split
  · exact nodeHash_eq hnode hsibling
  · exact nodeHash_eq hsibling hnode

/-- The loop of the SDK is the walk of the tree. -/
theorem walkFrom_eq {index level : Nat} {node : U256} {siblings : List U256}
    (hnode : frInRange node) (hsiblings : ∀ s ∈ siblings, frInRange s) :
    walkFrom poseidon2 index level node.toNat (siblings.map BitVec.toNat) =
      .ok (MerkleTree.walk (ZkPoR.nodeHash poseidon2) node (index / 2 ^ level) siblings).toNat := by
  induction siblings generalizing level node with
  | nil => rfl
  | cons sibling siblings ih =>
    rw [List.forall_mem_cons] at hsiblings
    refine bind_eq_ok.mpr ⟨(), check_of hsiblings.1, bind_eq_ok.mpr
      ⟨_, parentOf_eq hnode hsiblings.1, ?_⟩⟩
    rw [ih (frInRange_nodeHash _ _) hsiblings.2, MerkleTree.walk, Nat.div_div_eq_div_mul,
      ← pow_succ]

/-- **The walk of the SDK is the walk of the tree.** -/
theorem rootFromPath_eq_ok {leaf : U256} {leafIndex depth root : Nat} {siblings : List U256}
    (hleaf : frInRange leaf) (hsiblings : ∀ s ∈ siblings, frInRange s) :
    rootFromPath poseidon2 leaf.toNat leafIndex (siblings.map BitVec.toNat) depth = .ok root ↔
      1 ≤ depth ∧ siblings.length = depth ∧ leafIndex < 2 ^ depth ∧
        (MerkleTree.walk (ZkPoR.nodeHash poseidon2) leaf leafIndex siblings).toNat = root := by
  have hwalk := @walkFrom_eq poseidon2 leafIndex 0 leaf siblings hleaf hsiblings
  rw [pow_zero, Nat.div_one] at hwalk
  simp only [rootFromPath, bind_eq_ok, check_eq_ok, List.length_map, hwalk, Except.ok.injEq]
  constructor
  · rintro ⟨_, hdepth, _, hlength, _, hindex, _, -, hroot⟩
    exact ⟨hdepth, hlength, hindex, hroot⟩
  · rintro ⟨hdepth, hlength, hindex, hroot⟩
    exact ⟨(), hdepth, (), hlength, (), hindex, (), hleaf, hroot⟩

end
end ZkPoR.Sdk
