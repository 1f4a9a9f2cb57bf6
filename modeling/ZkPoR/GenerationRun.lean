import ZkPoR.EffectLog
import ZkPoR.RetainedReader

/-! # The packages command

`write_packages`: the gates on the deployment, the snapshot, the context, the customers,
the prior tree, and the recomputed root, and after them one private file for each
customer and the redacted tree of the generation.

A run takes the files that it reads as texts.  What it attempts on the disk is its log;
the disk can refuse any of it.
-/
namespace ZkPoR.Generation
open CheckedInt BoundedLoop SerdeJson Package Generator EffectLog
open Schema (IdentifierRule)

abbrev Path : Type := List String

/-- What the command does to the disk. -/
inductive FileOp
  | createDirAll (path : Path)
  | createDirPrivate (path : Path)
  | writePrivate (path : Path) (text : String)
  | write (path : Path) (text : String)
deriving DecidableEq

def PACKAGE_EXTENSION : String := "zkpor.json"
def PACKAGE_INDEX_DIGITS : Nat := 6
def GENERATION_FILE : String := "generation.json"
def DEPLOYMENTS_FILE : String := "scripts/deployments.json"

/-- The values that a read of the registry entry supplies. -/
structure AttestedEntry where
  id : U64
  context : Nat
  root : Nat
  snapshotLedger : U32
  transactionHash : String
  id_ne : id ≠ 0
  context_lt : context < frModulus
  root_lt : root < frModulus

/-- The prior tree that the caller names. -/
structure PriorFile where
  manifest : Option String
  id : U64
  root : Nat
  context : Nat

/-- The inputs of one run that do not come from the context file. -/
structure GenerationRequest where
  customersFile : Option String
  deploymentsFile : Option String
  out : Path
  network : String
  registry : String
  attested : AttestedEntry
  prior : Option PriorFile
  reportFile : Option Path

/-- The entries of a customer file. -/
structure CustomerEntries where
  entries : List CustomerEntry
  accepted : assertIdentifierRules (rowsOf entries) = .ok ()

/-- The rows of the tree. -/
def CustomerEntries.list (customers : CustomerEntries) : CustomerList :=
  ⟨rowsOf customers.entries, customers.accepted⟩

/-- What the gates have read and compared before the first write. -/
structure Plan where
  generation : Deployments.Generation
  customers : CustomerEntries
  rows : List Row
  tree : BuiltTree

/-- Fills a number with zeros in front. -/
def padded (width n : Nat) : String :=
  let digits := Nat.toDigits 10 n
  String.ofList (List.replicate (width - digits.length) '0' ++ digits)

/-- The name of the package file of one leaf. -/
def packageFilename (leafIndex : U32) : String :=
  "package-" ++ padded PACKAGE_INDEX_DIGITS leafIndex.toNat ++ "." ++ PACKAGE_EXTENSION

def haltText : Halt String → String
  | .panic text => text
  | .error reason => reason

def deploymentsReason : DeploymentsError → String
  | .unreadable reason => reason
  | .contradictory reason => reason

section Command
variable (primitives : Identity.Primitives) (parseBigUint : BigUintParser) (serde : SerdeJson)
  (poseidon2 : List Fr → Fr)

/-! ## The gates -/

def readEntries (text : List Char) : Except String CustomerEntries :=
  match readCustomerEntries primitives parseBigUint text with
  | .error reason => .error reason
  | .ok entries =>
    if h : assertIdentifierRules (rowsOf entries) = .ok () then .ok ⟨entries, h⟩
    else .error "an identifier rule"

/-- The prior tree as the check of the tree takes it. -/
def priorInput (prior : PriorFile) : PriorInput where
  manifest := do
    let text ← orPanic prior.manifest "read the prior manifest"
    let tree ← (Retained.parseTree serde poseidon2 text).mapError haltText
    return tree.toRetainedTree
  id := prior.id
  root := prior.root
  context := prior.context

/-- The rules on the attestation identifier and on the prior tree. -/
def checkPriorFile (request : GenerationRequest) (registry asset : String) (customers : List Row)
    (capacity : Nat) : Except String Unit :=
  match request.prior with
  | some prior => do
    assertThat (checkedAdd prior.id 1 = some request.attested.id)
      "assertion `left == right` failed"
    checkPrior (priorInput serde poseidon2 prior) request.network registry asset customers capacity
  | none => assertThat (request.attested.id = 1) "a later attestation needs the prior redacted tree"

def findGeneration (request : GenerationRequest) : Except String Deployments.Generation := do
  let deployments ← orPanic request.deploymentsFile "read the deployments file"
  let found ← (Deployments.find serde deployments request.network request.registry).mapError
    fun reason => s!"{DEPLOYMENTS_FILE}: {deploymentsReason reason}"
  orPanic found (s!"{DEPLOYMENTS_FILE} records no generation with the registry " ++
    s!"{request.registry} on the network {request.network}")

/-- The part of `write_packages` in front of the first write. -/
def plan (config : Config) (context : AttestationContext) (masterSecret : U256)
    (request : GenerationRequest) : Except String Plan := do
  let generation ← findGeneration serde request
  assertThat (generation.treeDepth = trailingZeros config.capacity)
    (s!"the generation of the registry {generation.registry} holds trees of depth " ++
      s!"{generation.treeDepth}, and this tree has depth {trailingZeros config.capacity}")
  assertThat (context.snapshotLedger = request.attested.snapshotLedger)
    (s!"the context file names snapshot {context.snapshotLedger.toNat}, and the registry " ++
      s!"attested {request.attested.snapshotLedger.toNat}")
  assertThat (toBig context.hash = request.attested.context)
    "the context file does not match the stored attestation"
  let text ← orPanic request.customersFile "read the customer file"
  let customers ← readEntries primitives parseBigUint text.toList
  checkPriorFile serde poseidon2 request generation.registry context.asset customers.list.rows
    config.capacity
  let rows ← padToCapacity customers.list.rows config.capacity
  let tree ← packageTree poseidon2 config context.hash masterSecret customers.list
  assertThat (tree.root = request.attested.root)
    (s!"the recomputed root is {hexText (BitVec.ofNat 256 tree.root)}, and the registry attested " ++
      s!"{hexText (BitVec.ofNat 256 request.attested.root)}; no package may exist for a root " ++
      "that the chain did not accept")
  assertThat (request.network ≠ "" ∧
    request.network.toList.all (fun c => c.isAlphanum || c == '-') = true)
    "the network name is one path component"
  return { generation, customers, rows, tree }

/-! ## The files -/

/-- The directories of a run, from the top. -/
def directoriesOf (request : GenerationRequest) (registry asset : String) : List Path :=
  let packages := request.out ++ ["packages"]
  let network := packages ++ [request.network]
  let registry := network ++ [registry]
  let asset := registry ++ [asset]
  [packages, network, registry, asset, asset ++ [decimalText request.attested.id.toNat]]

/-- The directory of the packages. -/
def directoryOf (request : GenerationRequest) (registry asset : String) : Path :=
  request.out ++ ["packages", request.network, registry, asset,
    decimalText request.attested.id.toNat]

/-- The package of one customer row. -/
def packageAt (context : AttestationContext) (request : GenerationRequest) (plan : Plan)
    (levels : List (List U256)) (index salt : Nat) : Except String Schema.Package := do
  let siblings ← pathInLevels levels index
  let entry ← Generator.index plan.customers.entries index
  let row ← Generator.index plan.rows index
  let commitment ← Generator.index plan.tree.commitments index
  return {
    identifierRule := entry.identifierRule
    network := request.network
    registry := plan.generation.registry
    asset := context.asset
    snapshotLedger := context.snapshotLedger
    contextHash := toBig context.hash
    attestationId := request.attested.id
    leafIndex := BitVec.ofNat 32 index
    id := row.1
    commitment
    balance := row.2
    salt
    siblings := siblings.map toBig }

/-- One leaf of the redacted tree. -/
def leafValue (leaf : Nat × Nat) : Except String Value := do
  let id ← frHex leaf.1
  let commitment ← frHex leaf.2
  return jsonObject [("id", .string id), ("commitment", .string commitment)]

/-- The authority-side record of one run. -/
def generationJson (request : GenerationRequest) (registry asset : String) (count context : Nat)
    (rows : List Row) (commitments : List Nat) : Except String String := do
  assertThat (rows.length = commitments.length) "every leaf has a commitment"
  let leaves ← ((rows.map Prod.fst).zip commitments).mapM leafValue
  let contextText ← frHex context
  let root ← frHex request.attested.root
  let manifest := jsonObject
    [("format", .string Retained.RETAINED_TREE_FORMAT), ("network", .string request.network),
      ("registry", .string registry), ("asset", .string asset),
      ("attestation_id", .string (decimalText request.attested.id.toNat)),
      ("snapshot_ledger", .number (.posInt (request.attested.snapshotLedger.setWidth 64))),
      ("context_hash", .string contextText), ("root", .string root),
      ("tree_depth", .number (.posInt (BitVec.ofNat 64 (trailingZeros rows.length)))),
      ("count", .number (.posInt (BitVec.ofNat 64 count))),
      ("transaction_hash", .string request.attested.transactionHash), ("leaves", .array leaves)]
  return serde.toStringPretty manifest ++ "\n"

/-- One iteration of the loop over the customers. -/
def writePackage (refuses : List FileOp → FileOp → Option String) (context : AttestationContext)
    (request : GenerationRequest) (plan : Plan) (levels : List (List U256)) (entry : Nat × Nat) :
    Run FileOp String Unit := do
  let package ← Run.ofExcept (packageAt context request plan levels entry.2 entry.1)
  let text ← Run.ofExcept (Schema.toJson serde package)
  Run.perform refuses (.writePrivate
    (directoryOf request plan.generation.registry context.asset ++
      [packageFilename package.leafIndex]) text)

/-- The file that tells the caller where the packages are. -/
def writeReport (refuses : List FileOp → FileOp → Option String) (directory : Path) :
    Option Path → Run FileOp String Unit
  | some report => Run.perform refuses (.write report (String.intercalate "/" directory ++ "\n"))
  | none => pure ()

/-- The part of `write_packages` that writes. -/
def writePlan (refuses : List FileOp → FileOp → Option String) (context : AttestationContext)
    (request : GenerationRequest) (plan : Plan) : Run FileOp String Unit := do
  let registry := plan.generation.registry
  Run.perform refuses (.createDirAll request.out)
  Run.forEach (directoriesOf request registry context.asset) fun level =>
    Run.perform refuses (.createDirPrivate level)
  let levels := treeLevels poseidon2 plan.tree.leaves
  Run.forEach plan.tree.salts.zipIdx (writePackage serde refuses context request plan levels)
  let record ← Run.ofExcept (generationJson serde request registry context.asset
    plan.customers.list.rows.length (toBig context.hash) plan.rows plan.tree.commitments)
  Run.perform refuses
    (.writePrivate (directoryOf request registry context.asset ++ [GENERATION_FILE]) record)
  writeReport refuses (directoryOf request registry context.asset) request.reportFile

/-- Writes one package for each customer row. -/
def writePackages (refuses : List FileOp → FileOp → Option String) (config : Config)
    (context : AttestationContext) (masterSecret : U256) (request : GenerationRequest) :
    Run FileOp String Unit := do
  let plan ← Run.ofExcept
    (plan primitives parseBigUint serde poseidon2 config context masterSecret request)
  writePlan serde poseidon2 refuses context request plan

end Command

end ZkPoR.Generation
