import ZkPoR.PackageText

/-! # What an inclusion means to the customer

Both checks, put together with the tree.  A check that reports an inclusion found
one record in the deployments file of the verifier, read the attestation from the
registry of that record, and proved the place of the package in the attested tree
(`customerCheck_sound`).
-/
namespace ZkPoR
open CheckedInt JsonText

namespace InclusionVerify

/-- What an inclusion that the Rust check reports establishes. -/
structure Establishes (primitives : Identity.Primitives) (serde : SerdeJson)
    (poseidon2 : List Fr → Fr) (deploymentsText : String) (chain : Chain)
    (identityText : Option String) (report : Included) (package : Schema.Package)
    (generation : Deployments.Generation) (attestation : Attestation) : Prop where
  /-- The file of the verifier holds one record of the pair. -/
  record : ∃ generations, Deployments.generations serde deploymentsText = .ok generations ∧
    generations.filter (Deployments.Generation.names package.network package.registry) =
      [generation]
  /-- The registry of the record holds the attestation. -/
  attested : chain.attestation generation.registry package.asset package.attestationId =
    .ok (.attested attestation)
  snapshot : attestation.snapshotLedger = package.snapshotLedger
  context : attestation.contextHash = package.contextHash
  reported : ∃ latestLedger, chain.latestLedger = .ok latestLedger ∧
    report = reportOf package generation attestation latestLedger identityText
  /-- The tree with the attested root holds the package at its index. -/
  place : ∀ (S : Set (List Fr)) (customers : Nat → Fr × Fr), Set.InjOn poseidon2 S →
    hashedByTree poseidon2 customers generation.treeDepth ⊆ S →
    (claimOf package).hashed poseidon2 ⊆ S →
    attestation.finalRoot = (rootOf poseidon2 customers generation.treeDepth).toNat →
    IsPlaceOf poseidon2 S customers generation.treeDepth (claimOf package)
  owner : ∀ text, identityText = some text → Owns primitives serde package text

theorem establishes_of_accepts {primitives : Identity.Primitives} {serde : SerdeJson}
    {poseidon2 : List Fr → Fr} {packageText deploymentsText : String} {chain : Chain}
    {identityText : Option String} {package : Schema.Package} {generation : Deployments.Generation}
    {attestation : Attestation} {latestLedger : U32}
    (h : Accepts primitives serde poseidon2 packageText deploymentsText chain identityText package
      generation attestation latestLedger) :
    Establishes primitives serde poseidon2 deploymentsText chain identityText
      (reportOf package generation attestation latestLedger identityText) package generation
      attestation where
  record := by
    obtain ⟨generations, hgenerations, hfilter, -⟩ := Deployments.find_eq_some h.finds
    exact ⟨generations, hgenerations, hfilter⟩
  attested := h.attests
  snapshot := h.snapshot
  context := h.context
  reported := ⟨latestLedger, h.latest, rfl⟩
  place := fun _ _ hS htree hclaim hroot => h.isPlaceOf hS htree hclaim hroot
  owner := h.owns

end InclusionVerify

namespace Sdk

theorem readStoredAttestation_eq_some {client : Client} {registry asset : Text} {id : Nat}
    {attestation : StoredAttestation}
    (h : readStoredAttestation client registry asset id = .ok (some attestation)) :
    ∃ address value, client.address asset = .ok address ∧
      simulateRead client registry (.getAttestation address (BitVec.ofNat 64 id)) = .ok value ∧
      decodeStoredAttestation value id = .ok attestation := by
  unfold readStoredAttestation at h
  split at h
  · cases h
  obtain ⟨returned, hreturned, hdecode⟩ := BoundedLoop.bind_eq_ok.mp h
  cases returned with
  | none => cases hdecode
  | some value =>
    obtain ⟨address, haddress, hvalue⟩ :=
      BoundedLoop.bind_eq_ok.mp (undefinedFor_eq_some.mp hreturned)
    refine ⟨address, value, haddress, hvalue, ?_⟩
    change some <$> decodeStoredAttestation value id = _ at hdecode
    cases hread : decodeStoredAttestation value id with
    | error failure =>
      rw [hread] at hdecode
      cases hdecode
    | ok found =>
      rw [hread] at hdecode
      cases hdecode
      rfl

/-- What an inclusion that the check of the SDK reports establishes. -/
structure Establishes (primitives : Primitives) (poseidon2 : List Fr → Fr)
    (deploymentsText : String) (client : Client) (identityText : Option String)
    (report : Included) (entry : InclusionPackage) (generation : Generation)
    (attestation : StoredAttestation) : Prop where
  /-- The file of the verifier holds one record of the pair. -/
  record : ∃ generations, parseDeployments deploymentsText = .ok generations ∧
    generations.filter (Generation.names entry.network entry.registry) = [generation]
  /-- The registry of the record holds the attestation. -/
  attested : ∃ address contract value, client.address entry.asset = .ok address ∧
    client.contract generation.registry = .ok contract ∧
    client.simulateTransaction contract
      (.getAttestation address (BitVec.ofNat 64 entry.attestationId)) =
        some (.success (some value)) ∧
    decodeStoredAttestation value entry.attestationId = .ok attestation
  snapshot : attestation.snapshotLedger = entry.snapshotLedger
  context : attestation.contextHash = entry.contextHash
  reported : ∃ currentLedger, client.health = .ok currentLedger ∧
    report = reportOf entry generation attestation currentLedger identityText
  /-- The tree with the attested root holds the package at its index. -/
  place : ∀ (S : Set (List Fr)) (customers : Nat → Fr × Fr), Set.InjOn poseidon2 S →
    hashedByTree poseidon2 customers generation.treeDepth ⊆ S →
    (claimOf entry).hashed poseidon2 ⊆ S →
    attestation.finalRoot = (rootOf poseidon2 customers generation.treeDepth).toNat →
    IsPlaceOf poseidon2 S customers generation.treeDepth (claimOf entry)
  owner : ∀ text, identityText = some text → Owns primitives entry text

theorem establishes_of_accepts {primitives : Primitives} {poseidon2 : List Fr → Fr}
    {packageText deploymentsText : String} {client : Client} {identityText : Option String}
    {entry : InclusionPackage} {generation : Generation} {attestation : StoredAttestation}
    {currentLedger : Nat}
    (h : Accepts primitives poseidon2 packageText deploymentsText client identityText entry
      generation attestation currentLedger) :
    Establishes primitives poseidon2 deploymentsText client identityText
      (reportOf entry generation attestation currentLedger identityText) entry generation
      attestation where
  record := by
    obtain ⟨generations, hgenerations, hfilter, -⟩ := findGeneration_eq_some h.finds
    exact ⟨generations, hgenerations, hfilter⟩
  attested := by
    obtain ⟨address, value, haddress, hread, hdecode⟩ := readStoredAttestation_eq_some h.attests
    obtain ⟨contract, hcontract, hsimulated⟩ := simulateRead_eq_ok.mp hread
    exact ⟨address, contract, value, haddress, hcontract, hsimulated, hdecode⟩
  snapshot := h.snapshot
  context := h.context
  reported := ⟨currentLedger, h.latest, rfl⟩
  place := fun _ _ hS htree hclaim hroot => h.isPlaceOf hS htree hclaim hroot
  owner := h.owns

end Sdk

/-- **An inclusion is the place of the customer.**  When either check reports an
inclusion, the file of the verifier holds one record of the package, the registry of
that record attests the snapshot and the context of the package, the attested tree
holds the package at its index, and the identity file is that of its identifier. -/
theorem customerCheck_sound (primitives : Identity.Primitives) (sdkPrimitives : Sdk.Primitives)
    (serde : SerdeJson) (poseidon2 : List Fr → Fr) (packageText deploymentsText : String)
    (identityText : Option String) :
    (∀ chain report, InclusionVerify.verifyWithIdentity primitives serde poseidon2 packageText
        deploymentsText chain identityText = .ok (.included report) →
      ∃ package generation attestation,
        Schema.parse serde poseidon2 packageText = .ok package ∧
        InclusionVerify.Establishes primitives serde poseidon2 deploymentsText chain identityText
          report package generation attestation) ∧
    ∀ client report, Sdk.verifyInclusion sdkPrimitives poseidon2 packageText deploymentsText client
        identityText = .ok (.included report) →
      ∃ entry generation attestation,
        Sdk.parsePackage poseidon2 packageText = .ok entry ∧
        Sdk.Establishes sdkPrimitives poseidon2 deploymentsText client identityText report entry
          generation attestation := by
  constructor
  · intro chain report h
    obtain ⟨package, generation, attestation, latestLedger, haccepts, rfl⟩ :=
      InclusionVerify.check_eq_ok.mp (InclusionVerify.verifyWithIdentity_eq_included.mp h)
    exact ⟨package, generation, attestation, haccepts.reads,
      InclusionVerify.establishes_of_accepts haccepts⟩
  · intro client report h
    obtain ⟨entry, generation, attestation, currentLedger, haccepts, rfl⟩ :=
      Sdk.checkInclusion_eq_ok.mp (Sdk.verifyInclusion_eq_included.mp h)
    exact ⟨entry, generation, attestation, haccepts.reads, Sdk.establishes_of_accepts haccepts⟩

/-! ## Exit codes -/

/-- The kinds of outcome of a check. -/
inductive Outcome
  | included
  | unsupportedFormat
  | malformed
  | untrustedDeployment
  | invalidDeployments
  | noMatchingAttestation
  | rootMismatch
  | foreignIdentifier
  | unsupportedIdentifierRule
  | invalidIdentity
deriving DecidableEq

def InclusionVerify.Verdict.outcome : InclusionVerify.Verdict → Outcome
  | included _ => .included
  | refused (.unsupportedFormat _) => .unsupportedFormat
  | refused (.malformed _) => .malformed
  | refused (.untrustedDeployment _ _) => .untrustedDeployment
  | refused (.invalidDeployments _) => .invalidDeployments
  | refused (.noMatchingAttestation _) => .noMatchingAttestation
  | refused (.rootMismatch _ _) => .rootMismatch
  | refused .foreignIdentifier => .foreignIdentifier
  | refused .unsupportedIdentifierRule => .unsupportedIdentifierRule
  | refused (.invalidIdentity _) => .invalidIdentity

def Sdk.Verdict.outcome : Sdk.Verdict → Outcome
  | included _ => .included
  | refused (.unsupportedFormat _) => .unsupportedFormat
  | refused (.malformed _) => .malformed
  | refused (.untrustedDeployment _ _ _) => .untrustedDeployment
  | refused (.invalidDeployments _) => .invalidDeployments
  | refused (.noMatchingAttestation _) => .noMatchingAttestation
  | refused (.rootMismatch _ _) => .rootMismatch
  | refused .foreignIdentifier => .foreignIdentifier
  | refused .unsupportedIdentifierRule => .unsupportedIdentifierRule
  | refused (.invalidIdentity _) => .invalidIdentity

/-- The number of each kind. -/
def Outcome.code : Outcome → Nat
  | included => 0
  | unsupportedFormat => 3
  | malformed => 4
  | untrustedDeployment => 5
  | noMatchingAttestation => 6
  | rootMismatch => 7
  | invalidDeployments => 9
  | foreignIdentifier => 10
  | unsupportedIdentifierRule => 11
  | invalidIdentity => 12

theorem Outcome.code_injective : Function.Injective Outcome.code := by
  intro a b h
  cases a <;> cases b <;> first | rfl | cases h

theorem InclusionVerify.exitCode_eq (v : Verdict) : exitCode v = v.outcome.code := by
  cases v with
  | included report => rfl
  | refused refusal => cases refusal <;> rfl

theorem Sdk.exitCode_eq (v : Verdict) : exitCode v = v.outcome.code := by
  cases v with
  | included report => rfl
  | refused refusal => cases refusal <;> rfl

/-- **The exit code tells the kind of the outcome**, the two tools number the kinds alike,
and no outcome has the number of a failure that gives none. -/
theorem exitCode_eq_iff (v : InclusionVerify.Verdict) (w : Sdk.Verdict) :
    (InclusionVerify.exitCode v = Sdk.exitCode w ↔ v.outcome = w.outcome) ∧
      InclusionVerify.exitCode v ≠ Sdk.EXIT_NO_VERDICT ∧ Sdk.exitCode w ≠ Sdk.EXIT_NO_VERDICT := by
  have hne : ∀ outcome : Outcome, outcome.code ≠ Sdk.EXIT_NO_VERDICT := by
    intro outcome
    cases outcome <;> decide
  rw [InclusionVerify.exitCode_eq, Sdk.exitCode_eq]
  exact ⟨Outcome.code_injective.eq_iff, hne _, hne _⟩

/-! ## A tree of two equal leaves

One customer file with an identity file, in a tree of depth one.  The sponge of the
protocol has no collision on the three inputs of the tree and of the check.
-/
section Sample
open SerdeJson (reference reference_documented)

/-- The identifier of the sample mailbox and the code of 32 zero bytes. -/
def sampleId : Nat := 0x2afde043a96be11f66e17254e8f3505b910fdfa4eed264f0d4ec87f3ce4900b4

def sampleEmail : String := "Alice.Tag@EXAMPLE.COM"
def sampleCode : String := String.ofList (List.replicate 43 'A')

/-- The digest of the sample preimage is the identifier itself. -/
def samplePrimitives : Identity.Primitives where
  sha256 _ := toBeBytes (BitVec.ofNat 256 sampleId)
  encode _ := sampleCode
  decode _ := some (List.replicate 32 0)

def sampleSdkPrimitives : Sdk.Primitives where
  sha256 := samplePrimitives.sha256
  encode := samplePrimitives.encode
  decode _ := List.replicate 32 0

def sampleSalt : U256 := 5
def sampleCommitment : U256 := balanceCommitment Poseidon2.hash 250 sampleSalt
def sampleCustomerLeaf : U256 :=
  leafHash Poseidon2.hash (BitVec.ofNat 256 sampleId) sampleCommitment

/-- Both customers of the sample tree. -/
def sampleTree : Nat → Fr × Fr := fun _ => (frOfNat sampleId, toFr sampleCommitment)

def sampleRegistry : String := String.ofList ('C' :: List.replicate 55 'A')
def sampleAsset : String := String.ofList ('C' :: List.replicate 55 'B')

theorem isContract_sample :
    Schema.isContract sampleRegistry = true ∧ Schema.isContract sampleAsset = true :=
  ⟨rfl, rfl⟩

def samplePackage : Schema.Package where
  identifierRule := .emailCodeV1
  network := "testnet"
  registry := sampleRegistry
  asset := sampleAsset
  snapshotLedger := 100
  contextHash := 9
  attestationId := 3
  leafIndex := 1
  id := sampleId
  commitment := sampleCommitment.toNat
  balance := 250
  salt := sampleSalt.toNat
  siblings := [sampleCustomerLeaf.toNat]

theorem sample_valid : Schema.Valid Poseidon2.hash samplePackage where
  registry := isContract_sample.1
  asset := isContract_sample.2
  contextHash := by decide
  attestationId := by decide
  id := by decide
  idNonzero := by decide
  commitment := frInRange_hash _ _
  salt := by decide
  opens := by
    show BitVec.toNat (balanceCommitment Poseidon2.hash 250 (BitVec.ofNat 256 sampleSalt.toNat)) =
      sampleCommitment.toNat
    rw [BitVec.ofNat_toNat, BitVec.setWidth_eq]
    rfl
  siblings := List.forall_mem_singleton.mpr (frInRange_leafHash _ _)

/-- The text of the sample package. -/
def samplePackageText : String := "\x7b\n" ++
  String.intercalate ",\n" ((Schema.written reference samplePackage).map fun member =>
    Schema.line member.1 member.2.1) ++ "\n\x7d\n"

def sampleDeployments : SerdeJson.Value :=
  .array [.object [("aggregator_key_sha256", .string "aa"), ("network", .string "testnet"),
    ("registry", .string sampleRegistry), ("registry_wasm_sha256", .string "bb"),
    ("tree_depth", .number (.posInt 1)), ("verifier", .string "CV"),
    ("verifier_wasm_sha256", .string "cc")]]

def sampleIdentity : SerdeJson.Value :=
  .object [("code", .string sampleCode), ("email", .string sampleEmail)]

/-- The text of a sample file. -/
def sampleText (value : SerdeJson.Value) : String := reference.toStringPretty value

def sampleJson (value : SerdeJson.Value) : Json := (SerdeJson.toJson value).getD .null

theorem parse_sampleDeployments :
    JsonText.parse (sampleText sampleDeployments) = some (sampleJson sampleDeployments) :=
  reference_documented.pretty rfl

theorem parse_sampleIdentity :
    JsonText.parse (sampleText sampleIdentity) = some (sampleJson sampleIdentity) :=
  reference_documented.pretty rfl

theorem generations_sample :
    Deployments.generations reference (sampleText sampleDeployments) =
      .ok [{ network := "testnet", registry := sampleRegistry, treeDepth := 1 }] := by
  rw [Deployments.generations, reference_documented.reads parse_sampleDeployments
    (show SerdeJson.plain _ _ = true from rfl) (show _ = some sampleDeployments from rfl)]
  rfl

def sampleGeneration : Sdk.Generation where
  network := Text.ofString "testnet"
  registry := Text.ofString sampleRegistry
  verifier := Text.ofString "CV"
  aggregatorKeySha256 := Text.ofString "aa"
  registryWasmSha256 := Text.ofString "bb"
  verifierWasmSha256 := Text.ofString "cc"
  treeDepth := 1

theorem parseDeployments_sample :
    Sdk.parseDeployments (sampleText sampleDeployments) = .ok [sampleGeneration] := by
  rw [Sdk.parseDeployments, JavaScript.parse, parse_sampleDeployments]
  decide +kernel

/-- The root that the chain attests. -/
def sampleRoot : U256 := nodeHash Poseidon2.hash sampleCustomerLeaf sampleCustomerLeaf

def sampleAttestation : InclusionVerify.Attestation where
  contextHash := 9
  finalRoot := sampleRoot.toNat
  totalLiabilities := 500
  snapshotLedger := 100
  attestedLedger := 101

def sampleChain : InclusionVerify.Chain where
  attestation _ _ _ := .ok (.attested sampleAttestation)
  latestLedger := .ok 200

theorem attestation_sample {registry asset : String} {id : U64}
    {attestation : InclusionVerify.Attestation}
    (h : sampleChain.attestation registry asset id = .ok (.attested attestation)) :
    attestation = sampleAttestation := by
  unfold sampleChain at h
  simp only [Except.ok.injEq, InclusionVerify.Entry.attested.injEq] at h
  exact h.symm

def sampleStored : Sdk.StoredAttestation where
  finalRoot := sampleRoot.toNat
  totalLiabilities := 500
  snapshotLedger := 100
  reserveSum := 600
  attestedLedger := 101
  attestationId := 3
  contextHash := 9

/-- The record as the host returns it. -/
def sampleNative : Sdk.NativeValue :=
  .record [(Text.ofString "final_root", .bigint sampleRoot.toNat),
    (Text.ofString "total_liabilities", .bigint 500),
    (Text.ofString "snapshot_ledger", .number (.finite false 100 0)),
    (Text.ofString "reserve_sum", .bigint 600),
    (Text.ofString "attested_ledger", .number (.finite false 101 0)),
    (Text.ofString "context_hash", .bigint 9)]

def sampleClient : Sdk.Client where
  address _ := .ok (.ofPayload (.contractIdHash (List.Vector.replicate 32 0)))
  contract _ := .ok (.ofPayload (.contractIdHash (List.Vector.replicate 32 1)))
  simulateTransaction _ _ := some (.success (some sampleNative))
  health := .ok 200

theorem owns_sample :
    InclusionVerify.Owns samplePrimitives reference samplePackage (sampleText sampleIdentity) where
  rule := rfl
  derives := ⟨sampleIdentity, sampleEmail, sampleCode,
    reference_documented.reads parse_sampleIdentity (show SerdeJson.plain _ _ = true from rfl) rfl,
    rfl, rfl, by decide +kernel⟩

/-- The walk of the sample claim ends at the attested root. -/
theorem walk_sample :
    MerkleTree.walk (nodeHash Poseidon2.hash)
      (leafHash Poseidon2.hash (BitVec.ofNat 256 sampleId)
        (BitVec.ofNat 256 sampleCommitment.toNat)) 1
      [BitVec.ofNat 256 sampleCustomerLeaf.toNat] = sampleRoot := by
  rw [BitVec.ofNat_toNat, BitVec.ofNat_toNat, BitVec.setWidth_eq, BitVec.setWidth_eq]
  rfl

theorem accepts_sample :
    InclusionVerify.Accepts samplePrimitives reference Poseidon2.hash samplePackageText
      (sampleText sampleDeployments) sampleChain (some (sampleText sampleIdentity)) samplePackage
      { network := "testnet", registry := sampleRegistry, treeDepth := 1 } sampleAttestation
      200 where
  reads := Schema.parse_of_toJson reference_documented sample_valid (Schema.toJson_eq sample_valid)
  owns := fun text htext => by
    cases htext
    exact owns_sample
  finds := by
    rw [Deployments.find, generations_sample]
    rfl
  length := rfl
  index := by decide
  depth := by decide
  attests := rfl
  snapshot := rfl
  context := rfl
  root := congrArg BitVec.toNat walk_sample
  latest := rfl

theorem sdkParse_sample :
    JavaScript.parse (sampleText sampleIdentity) =
      some (.object [(Text.ofString "code", .string (Text.ofString sampleCode)),
        (Text.ofString "email", .string (Text.ofString sampleEmail))]) := by
  rw [JavaScript.parse, parse_sampleIdentity]
  rfl

theorem sdkOwns_sample :
    Sdk.Owns sampleSdkPrimitives (Schema.sdkPackage samplePackage) (sampleText sampleIdentity) where
  format := rfl
  rule := rfl
  derives := ⟨_, Text.ofString sampleEmail, Text.ofString sampleCode, sdkParse_sample,
    rfl, rfl, by decide +kernel⟩

theorem sdkAccepts_sample :
    Sdk.Accepts sampleSdkPrimitives Poseidon2.hash samplePackageText (sampleText sampleDeployments)
      sampleClient (some (sampleText sampleIdentity)) (Schema.sdkPackage samplePackage)
      sampleGeneration sampleStored 200 where
  reads := Schema.parsePackage_of_toJson reference_documented sample_valid
    (Schema.toJson_eq sample_valid)
  owns := fun text htext => by
    cases htext
    exact sdkOwns_sample
  finds := by
    rw [Sdk.findGeneration, parseDeployments_sample]
    rfl
  depth := by decide
  length := rfl
  index := by decide
  attests := rfl
  snapshot := rfl
  context := rfl
  root := congrArg (fun root => (BitVec.toNat root : Int)) walk_sample
  latest := rfl

/-- The three inputs of the sample tree and of the check. -/
def sampleInputs : List (List Fr) :=
  [balanceInput 250 sampleSalt, leafInput (BitVec.ofNat 256 sampleId) sampleCommitment,
    nodeInput (sampleCustomerLeaf, sampleCustomerLeaf)]

theorem injOn_sampleInputs : Set.InjOn Poseidon2.hash {x | x ∈ sampleInputs} := by
  have hnodup : (sampleInputs.map Poseidon2.hash).Nodup := by decide +kernel
  intro x hx y hy h
  exact List.inj_on_of_nodup_map hnodup hx hy h

/-- The leaf of either customer. -/
theorem leafOf_sample (i : Nat) : leafOf Poseidon2.hash sampleTree i = sampleCustomerLeaf := by
  have hcommitment : ofFr (toFr sampleCommitment) = sampleCommitment :=
    ofFr_toFr (frInRange_hash _ _)
  show leafHash Poseidon2.hash (BitVec.ofNat 256 sampleId) (ofFr (toFr sampleCommitment)) = _
  rw [hcommitment]
  rfl

theorem hashedByTree_sample :
    hashedByTree Poseidon2.hash sampleTree 1 ⊆ {x | x ∈ sampleInputs} := by
  rintro x (⟨i, -, rfl⟩ | ⟨q, hq, rfl⟩)
  · have hcommitment : ofFr (toFr sampleCommitment) = sampleCommitment :=
      ofFr_toFr (frInRange_hash _ _)
    show leafInput (BitVec.ofNat 256 sampleId) (ofFr (toFr sampleCommitment)) ∈ sampleInputs
    rw [hcommitment]
    simp [sampleInputs]
  · obtain ⟨k, hk, rfl⟩ := MerkleTree.treePairs_uniform _ (fun i _ => leafOf_sample i) hq
    obtain rfl : k = 0 := by omega
    simp [sampleInputs, MerkleTree.uniform]

theorem rootOf_sample : rootOf Poseidon2.hash sampleTree 1 = sampleRoot := by
  rw [rootOf, MerkleTree.root, MerkleTree.nodeAt_succ, MerkleTree.nodeAt_zero,
    MerkleTree.nodeAt_zero, leafOf_sample, leafOf_sample, sampleRoot]

theorem hashed_sample :
    (InclusionVerify.claimOf samplePackage).hashed Poseidon2.hash ⊆ {x | x ∈ sampleInputs} := by
  have hvalue : ∀ x : U256, BitVec.ofNat 256 x.toNat = x := fun x =>
    (BitVec.ofNat_toNat _ _).trans (BitVec.setWidth_eq _)
  have hclaim : InclusionVerify.claimOf samplePackage =
      ⟨1, BitVec.ofNat 256 sampleId, sampleCommitment, 250, sampleSalt, [sampleCustomerLeaf]⟩ := by
    simp only [InclusionVerify.claimOf, samplePackage, hvalue, List.map_cons, List.map_nil]
    rfl
  rw [hclaim]
  rintro x (rfl | rfl | ⟨q, hq, rfl⟩)
  · simp [sampleInputs]
  · simp [sampleInputs]
  · obtain rfl : q = (sampleCustomerLeaf, sampleCustomerLeaf) := List.mem_singleton.mp hq
    simp [sampleInputs]

/-- Both checks report the inclusion of the sample, which is its place in the tree. -/
theorem customerCheck_sound_sample :
    (∃ package, Schema.parse reference Poseidon2.hash samplePackageText = .ok package ∧
      IsPlaceOf Poseidon2.hash {x | x ∈ sampleInputs} sampleTree 1
        (InclusionVerify.claimOf package)) ∧
    ∃ report entry generation attestation,
      Sdk.parsePackage Poseidon2.hash samplePackageText = .ok entry ∧
      Sdk.Establishes sampleSdkPrimitives Poseidon2.hash (sampleText sampleDeployments) sampleClient
        (some (sampleText sampleIdentity)) report entry generation attestation := by
  have h := customerCheck_sound samplePrimitives sampleSdkPrimitives reference Poseidon2.hash
    samplePackageText (sampleText sampleDeployments) (some (sampleText sampleIdentity))
  constructor
  · obtain ⟨package, generation, attestation, hreads, hestablishes⟩ := h.1 sampleChain _
      (InclusionVerify.verifyWithIdentity_eq_included.mpr (InclusionVerify.check_eq_ok.mpr
        ⟨_, _, _, _, accepts_sample, rfl⟩))
    obtain rfl : package = samplePackage :=
      Except.ok.inj (hreads.symm.trans accepts_sample.reads)
    have hfound : generation = ⟨"testnet", sampleRegistry, 1⟩ := by
      obtain ⟨generations, hgenerations, hfilter⟩ := hestablishes.record
      obtain rfl := Except.ok.inj (hgenerations.symm.trans generations_sample)
      have hmem : generation ∈ List.filter (Deployments.Generation.names samplePackage.network
          samplePackage.registry) [⟨"testnet", sampleRegistry, 1⟩] := by
        rw [hfilter]
        exact List.mem_singleton_self _
      exact List.mem_singleton.mp (List.mem_filter.mp hmem).1
    have hattested : attestation = sampleAttestation :=
      attestation_sample hestablishes.attested
    refine ⟨samplePackage, hreads, ?_⟩
    subst hfound hattested
    exact hestablishes.place _ _ injOn_sampleInputs hashedByTree_sample hashed_sample
      (congrArg BitVec.toNat rootOf_sample).symm
  · obtain ⟨entry, generation, attestation, hentry⟩ := h.2 sampleClient _
      (Sdk.verifyInclusion_eq_included.mpr (Sdk.checkInclusion_eq_ok.mpr
        ⟨_, _, _, _, sdkAccepts_sample, rfl⟩))
    exact ⟨_, entry, generation, attestation, hentry⟩

end Sample
end ZkPoR
