import ZkPoR.BoundedLoop
import ZkPoR.PackageTree

/-! # The off-circuit generator

`recursion-gen` reads the customer list, pads it to the capacity of the tree,
derives one salt for each leaf, and writes the inputs of each inner circuit.  Two
more commands build the same tree again: one prints the path of one customer, and
one writes the customer packages after the attestation.

The definitions follow `tools/recursion-gen/src/main.rs`.  A command that panics
answers the text of the panic.
-/
namespace ZkPoR.Generator
open CheckedInt BoundedLoop InsertionSort Package

/-- An identifier and a balance. -/
abbrev Row : Type := Nat × U64

/-! ## The customer list -/

/-- The identifier rules, from row `row` on, with the identifiers already seen. -/
def identifierRulesFrom (row : Nat) (seen : List Nat) : List Row → Except String Unit
  | [] => .ok ()
  | (id, _) :: rows =>
    if id = PADDING_LEAF_ID then
      .error (s!"row {row} carries identifier {id}, and a customer identifier must not be zero")
    else if ¬ id < frModulus then
      .error s!"row {row} carries identifier {id}, which is not below the field modulus"
    else if id ∈ seen then
      .error s!"row {row} repeats identifier {id}, and an identifier appears once"
    else
      identifierRulesFrom (row + 1) (id :: seen) rows

/-- Rejects a liability list that breaks an identifier rule. -/
def assertIdentifierRules (rows : List Row) : Except String Unit := identifierRulesFrom 0 [] rows

/-- The rows of a customer file.  The reader runs the identifier rules before it
returns, so an invalid list never becomes a tree. -/
structure CustomerList where
  rows : List Row
  accepted : assertIdentifierRules rows = .ok ()

/-! ## Fields -/

/-- The 32 bytes of a field element hold the value. -/
def be32 (value : Nat) : Except String U256 :=
  if value < 2 ^ 256 then .ok (BitVec.ofNat 256 value)
  else .error "value does not fit in a field element"

/-- A field element as the host type of the hash functions. -/
def toFr (value : Nat) : Except String U256 := do
  let element ← be32 value
  if element.toNat < frModulus then .ok element
  else .error "value is not below the field modulus"

/-- A field element as an integer. -/
def toBig (value : U256) : Nat := value.toNat

/-- The entry of a vector at one index. -/
def index {α : Type} (l : List α) (i : Nat) : Except String α :=
  match l[i]? with
  | none => .error "index out of bounds"
  | some x => .ok x

/-! ## The shape -/

/-- `batch_b`, `num_batches_k`, and the tree capacity of `params.toml`. -/
structure Config where
  b : Nat
  k : Nat
  capacity : Nat
deriving DecidableEq

/-- The shape that `params.toml` states.  The product of a release build wraps. -/
def readShape (batchB numBatchesK nodeHashArity : U64) : Except String Config :=
  if nodeHashArity ≠ 2 then
    .error "only binary (arity 2) Poseidon2 is supported"
  else if ¬ (2 ≤ batchB.toNat ∧ batchB.toNat.isPowerOfTwo) then
    .error "batch_b must be a power of two >= 2"
  else if ¬ (2 ≤ numBatchesK.toNat ∧ numBatchesK.toNat.isPowerOfTwo) then
    .error "num_batches_k must be a power of two >= 2"
  else
    .ok { b := batchB.toNat, k := numBatchesK.toNat, capacity := (batchB * numBatchesK).toNat }

/-- Count of the trailing zero bits of a 64-bit integer. -/
def trailingZeros (n : Nat) : Nat := (BitVec.ofNat 64 n).ctz.toNat

/-! ## The tree -/

/-- Fills the customer list up to the tree capacity with padding leaves. -/
def padToCapacity (rows : List Row) (capacity : Nat) : Except String (List Row) :=
  if ¬ rows.length ≤ capacity then
    .error (s!"the customer file holds {rows.length} rows and the tree holds {capacity}; " ++
      "raise batch_b or num_batches_k. The generator does not cut the list, " ++
      "because a cut removes liabilities from the total")
  else
    .ok (rows ++ List.replicate (capacity - rows.length) (PADDING_LEAF_ID, PADDING_LEAF_BALANCE))

/-- Consecutive blocks of `size` entries; the last one can be shorter. -/
def chunks {α : Type} (size : Nat) (l : List α) : List (List α) :=
  if 0 < size ∧ l ≠ [] then l.take size :: chunks size (l.drop size) else []
termination_by l.length
decreasing_by
  rename_i h
  have := List.length_pos_of_ne_nil h.2
  rw [List.length_drop]
  omega

section Tree
variable (poseidon2 : List Fr → Fr)

/-- The root that the two circuit stages produce: the roots of the batches,
folded again. -/
def foldedRoot (leaves : List U256) (batchSize : Nat) : Except String U256 := do
  let subroots ← (chunks batchSize leaves).mapM (subtreeRoot poseidon2)
  subtreeRoot poseidon2 subroots

def commitmentOfRow (row : Row) (salt : U256) : U256 := balanceCommitment poseidon2 row.2 salt

/-- The salt and the leaf hash of one row at its global index. -/
def leafOfRow (masterSecret context : U256) (row : Row) (globalIndex : Nat) :
    Except String (U256 × U256) := do
  let salt := deriveSalt poseidon2 masterSecret context (BitVec.ofNat 64 globalIndex)
  let commitment := commitmentOfRow poseidon2 row salt
  let id ← toFr row.1
  return (salt, leafHash poseidon2 id commitment)

/-- The salts and the leaves of all rows, in index order. -/
def leavesOfRows (masterSecret context : U256) (rows : List Row) :
    Except String (List (U256 × U256)) :=
  rows.zipIdx.mapM fun (row, index) => leafOfRow poseidon2 masterSecret context row index

end Tree

/-! ## `witness` -/

/-- The attestation context of one context file. -/
structure AttestationContext where
  hash : U256
  asset : String
  snapshotLedger : U32

/-- The prior tree that the caller names: what the manifest file parses to, and
the attestation that it must belong to. -/
structure PriorInput where
  manifest : Except String RetainedTree
  id : U64
  root : Nat
  context : Nat

/-- Refuses a prior tree of another attestation, and a customer list that drops a
customer of the prior tree. -/
def checkPrior (prior : PriorInput) (network registry asset : String) (current : List Row)
    (capacity : Nat) : Except String Unit :=
  match prior.manifest with
  | .error _ => .error "the prior redacted tree is complete"
  | .ok tree =>
    if tree.binding.network ≠ network ∨ tree.binding.registry ≠ registry ∨
        tree.binding.asset ≠ asset ∨ tree.binding.attestationId ≠ prior.id ∨
        tree.binding.root ≠ prior.root ∨ tree.binding.contextHash ≠ prior.context ∨
        tree.binding.treeDepth.toNat ≠ trailingZeros capacity then
      .error "assertion `left == right` failed"
    else
      match tree.identifiers.find? fun id => ¬ id ∈ current.map Prod.fst with
      | some id => .error (s!"the current customer file omits prior identifier {id}; " ++
          "keep a closed account as an explicit zero row")
      | none => .ok ()

/-- The check of the prior tree, when the caller names one. -/
def checkPriorOption (prior : Option PriorInput) (network registry : Option String) (asset : String)
    (current : List Row) (capacity : Nat) : Except String Unit :=
  match prior, network, registry with
  | none, _, _ => .ok ()
  | some _, none, _ => .error "a prior tree needs the network"
  | some _, _, none => .error "a prior tree needs the registry"
  | some prior, some network, some registry =>
    checkPrior prior network registry asset current capacity

/-- The values of one `Prover_<k>.toml`. -/
structure ProverFile where
  batchSlot : Nat
  subroot : Nat
  subtotal : U128
  ids : List Nat
  balances : List U64
  salts : List Nat
deriving DecidableEq

/-- What the loop over one batch has collected. -/
structure BatchState where
  ids : List Nat
  balances : List U64
  salts : List Nat
  leaves : List U256
  sum : U128

/-- The files that the witness command writes: `BATCH_B`, and one file for each
batch. -/
structure WitnessFiles where
  batchB : Nat
  provers : List ProverFile

section Witness
variable (poseidon2 : List Fr → Fr)

/-- One iteration of the loop over one batch.  The sum of a release build wraps. -/
def batchStep (b : Nat) (context masterSecret : U256) (rows : List Row) (batch j : Nat)
    (s : BatchState) : Except String BatchState := do
  let globalIndex := batch * b + j
  let row ← index rows globalIndex
  let (salt, leaf) ← leafOfRow poseidon2 masterSecret context row globalIndex
  return {
    leaves := s.leaves ++ [leaf]
    ids := s.ids ++ [row.1]
    balances := s.balances ++ [row.2]
    salts := s.salts ++ [toBig salt]
    sum := s.sum + row.2.setWidth 128 }

/-- One iteration of the loop over the batches. -/
def witnessBatch (b : Nat) (context masterSecret : U256) (rows : List Row) (batch : Nat) :
    Except String ProverFile := do
  let s ← forRange b ⟨[], [], [], [], 0⟩ fun j _ =>
    batchStep poseidon2 b context masterSecret rows batch j
  let subroot ← subtreeRoot poseidon2 s.leaves
  return {
    batchSlot := batch
    subroot := toBig subroot
    subtotal := s.sum
    ids := s.ids
    balances := s.balances
    salts := s.salts }

def cmdWitness (config : Config) (context : AttestationContext) (masterSecret : U256)
    (customers : CustomerList) (prior : Option PriorInput) (network registry : Option String) :
    Except String WitnessFiles := do
  checkPriorOption prior network registry context.asset customers.rows config.capacity
  let rows ← padToCapacity customers.rows config.capacity
  let provers ← (List.range config.k).mapM
    (witnessBatch poseidon2 config.b context.hash masterSecret rows)
  return { batchB := config.b, provers }

end Witness

/-! ## `path` -/

/-- The position of the row of one customer identifier. -/
def indexOfCustomer (rows : List Row) (id : Nat) : Except String Nat :=
  match rows.findIdx? fun row => row.1 = id with
  | none => .error s!"the customer file holds no row with identifier {id}"
  | some index => .ok index

/-- Drops each entry that equals the one before it. -/
def dedup : List Nat → List Nat
  | a :: b :: l => if a = b then dedup (b :: l) else a :: dedup (b :: l)
  | l => l

/-- The leaves that the path command checks against the fold: the edges of the
tree, of the first batch, and of the list, and the leaf that the caller asked for. -/
def selfCheckIndices (batchSize customerCount requested : Nat) : List Nat :=
  dedup (insertionSort [0, batchSize - 1, batchSize, customerCount - 1, requested])

/-- What the path command prints. -/
structure PathOutput where
  globalIndex : Nat
  depth : Nat
  id : Nat
  balance : U64
  salt : Nat
  commitment : Nat
  leaf : Nat
  root : Nat
  siblings : List Nat
deriving DecidableEq

section Path
variable (poseidon2 : List Fr → Fr)

/-- The root that one leaf and its authentication path reproduce. -/
def rootOfPath (leaf : U256) (index : Nat) (siblings : List U256) (depth : Nat) :
    Except String U256 :=
  rootFromPath poseidon2 leaf (BitVec.ofNat 64 index) siblings depth

/-- The path of one leaf recomputes the root. -/
def selfCheck (leaves : List U256) (levels : List (List U256)) (root depth i : Nat) :
    Except String Unit := do
  let path ← pathInLevels levels i
  let leaf ← index leaves i
  let value ← rootOfPath poseidon2 leaf i path depth
  if toBig value = root then .ok ()
  else .error (s!"the path of leaf {i} does not recompute the root " ++ "that the fold produces")

def cmdPath (config : Config) (context masterSecret : U256) (customers : CustomerList) (id : Nat) :
    Except String PathOutput := do
  let depth := trailingZeros config.capacity
  let globalIndex ← indexOfCustomer customers.rows id
  let rows ← padToCapacity customers.rows config.capacity
  let row ← index rows globalIndex
  let salted ← leavesOfRows poseidon2 masterSecret context rows
  let leaves := salted.map Prod.snd
  let (salt, leaf) ← index salted globalIndex
  -- The levels come from the uniform fold and the root from the two stages.
  let levels := treeLevels poseidon2 leaves
  let root ← foldedRoot poseidon2 leaves config.b
  (selfCheckIndices config.b customers.rows.length globalIndex).forM
    (selfCheck poseidon2 leaves levels (toBig root) depth)
  let siblings ← pathInLevels levels globalIndex
  return {
    globalIndex
    depth
    id
    balance := row.2
    salt := toBig salt
    commitment := toBig (balanceCommitment poseidon2 row.2 salt)
    leaf := toBig leaf
    root := toBig root
    siblings := siblings.map toBig }

end Path

/-! ## `packages` -/

/-- The tree that the packages command builds before it compares its root with the
attested one: the salts of the customers, every commitment, and every leaf. -/
structure BuiltTree where
  salts : List Nat
  commitments : List Nat
  leaves : List U256
  root : Nat

section Packages
variable (poseidon2 : List Fr → Fr)

/-- The part of `write_packages` that builds the tree. -/
def packageTree (config : Config) (context masterSecret : U256) (customers : CustomerList) :
    Except String BuiltTree := do
  let rows ← padToCapacity customers.rows config.capacity
  let salted ← leavesOfRows poseidon2 masterSecret context rows
  let leaves := salted.map Prod.snd
  let root ← foldedRoot poseidon2 leaves config.b
  return {
    salts := (salted.take customers.rows.length).map fun p => toBig p.1
    commitments := (rows.zip salted).map fun p => toBig (commitmentOfRow poseidon2 p.1 p.2.1)
    leaves
    root := toBig root }

end Packages
end ZkPoR.Generator
