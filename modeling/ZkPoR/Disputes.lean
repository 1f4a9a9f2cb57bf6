import ZkPoR.Registry

/-! # The registry contract: signer keys, disputes, and bonds

The signer keys of `email.rs` and the disputes and bonds of `disputes.rs`.  A
dispute opens against a fixed attestation, on evidence that the customer was in
an older one (`inclusion`) or on a signed statement (`Email.verify`).  The
authority answers with an inclusion under the fixed root before the deadline, and
anyone resolves the dispute after it.
-/
namespace ZkPoR
open ByteString CheckedInt TypedStore Transaction
open Contract

/-! ## Signer keys -/

namespace Email

/-- `zkpor-email-registration/1`, and a zero byte. -/
def CONTEXT_DOMAIN : Bytes :=
  ascii ['z', 'k', 'p', 'o', 'r', '-', 'e', 'm', 'a', 'i', 'l', '-', 'r', 'e', 'g', 'i', 's', 't',
    'r', 'a', 't', 'i', 'o', 'n', '/', '1'] ++ [0]
def IDENTIFIER_BYTES : Nat := 32
def SUBJECT_BYTES : Nat := 43
def PACKED_BYTES : Nat := 31
def HASH_HALF_BYTES : Nat := 16
def BASE64URL : Bytes :=
  ascii ['A', 'B', 'C', 'D', 'E', 'F', 'G', 'H', 'I', 'J', 'K', 'L', 'M', 'N', 'O', 'P', 'Q', 'R',
    'S', 'T', 'U', 'V', 'W', 'X', 'Y', 'Z', 'a', 'b', 'c', 'd', 'e', 'f', 'g', 'h', 'i', 'j', 'k',
    'l', 'm', 'n', 'o', 'p', 'q', 'r', 's', 't', 'u', 'v', 'w', 'x', 'y', 'z', '0', '1', '2', '3',
    '4', '5', '6', '7', '8', '9', '-', '_']

/-- The two field elements of the addresses of a list, as bytes, in order. -/
def encodeAddresses : List Address → Except ContextError Bytes
  | [] => .ok []
  | address :: addresses =>
    match encodeAddress address with
    | .error reason => .error reason
    | .ok (hi, lo) =>
      (encodeAddresses addresses).map fun rest => toBeBytes hi ++ toBeBytes lo ++ rest

/-- The context that binds a signer key to a network, a registry, an asset, an
authority, and an identifier. -/
def context (H : Host) (asset authority : Address) (keyId : U64) (key : DkimKeyInput) :
    Except ContextError U256 :=
  (encodeAddresses [H.currentContract, asset, authority]).map fun addresses =>
    frReduce (H.sha256 (CONTEXT_DOMAIN ++ H.networkId.toList ++ addresses ++ toBe 8 keyId.toNat ++
      toBeBytes key.modulusHash ++ toBeBytes key.redcHash ++ key.domainHash.toList ++
      key.fromHeaderHash.toList)).toList

/-- The two halves of a hash, each in a field element of its own. -/
def appendHash (inputs : Bytes) (hash : BytesN 32) : Bytes :=
  inputs ++ List.replicate HASH_HALF_BYTES 0 ++ hash.toList.take HASH_HALF_BYTES ++
    List.replicate HASH_HALF_BYTES 0 ++ hash.toList.drop HASH_HALF_BYTES

/-- The base64url text of an identifier, without padding. -/
def subject (id : U256) : Bytes :=
  let input := toBeBytes id
  (List.range SUBJECT_BYTES).map fun index =>
    let bit := index * 6
    let source := bit / 8
    let shift := bit % 8
    let word : BitVec 16 := ((input.getD source 0).toBitVec.setWidth 16 <<< 8) |||
      (input.getD (source + 1) 0).toBitVec.setWidth 16
    BASE64URL.getD ((word >>> (10 - shift)) &&& 63).toNat 0

/-- One chunk of the subject in a field element: a zero byte, the chunk, zeros. -/
def packPart (part : Bytes) : Bytes :=
  0 :: part ++ List.replicate (IDENTIFIER_BYTES - 1 - part.length) 0

/-- The public input byte string of the email proof. -/
def publicInputs (record : DkimKey) (id : U256) : Bytes :=
  let inputs := toBeBytes record.contextHash
  let inputs := inputs ++ toBeBytes record.key.modulusHash
  let inputs := inputs ++ toBeBytes record.key.redcHash
  let inputs := appendHash inputs record.key.domainHash
  let inputs := appendHash inputs record.key.fromHeaderHash
  ((subject id).toChunks PACKED_BYTES).foldl (fun inputs part => inputs ++ packPart part) inputs

variable {H : Host}

/-- The last signer key identifier of an asset. -/
def count (asset : Address) : Contract H U64 := do
  let stored ← persistentGet (.dkimKeyCount asset)
  return stored.getD 0

/-- One registered signer key. -/
def read (asset : Address) (keyId : U64) : Contract H DkimKey := do
  let stored ← persistentGet (.dkimKey asset keyId)
  okOr stored .dkimKeyNotFound

/-- Asks the email verifier to check the proof of one email. -/
def verify (asset : Address) (evidence : EmailEvidence) : Contract H Unit := do
  refuseIf (evidence.id = BitVec.ofNat 256 PADDING_LEAF_ID ∨ ¬ frInRange evidence.id)
    .invalidEmailIdentifier
  let record ← read asset evidence.keyId
  let stored ← instanceGet .emailVerifier
  let verifier ← okOr stored .emailVerifierNotSet
  tryInvoke
    (fun invocation =>
      invocation.verifyProof verifier (publicInputs record evidence.id) evidence.proof)
    .emailProofRejected

end Email

variable {H : Host}

/-- Authorizes a signer for this asset. -/
def registerDkimKey (asset : Address) (key : DkimKeyInput) : Contract H U64 := do
  let stored ← persistentGet (.asset asset)
  let entry ← okOr stored .assetNotRegistered
  refuseIf (key.modulusHash = 0 ∨ key.redcHash = 0 ∨ ¬ frInRange key.modulusHash ∨
    ¬ frInRange key.redcHash) .invalidDkimKey
  let count ← Email.count asset
  let keyId ← okOr (checkedAdd count 1) .dkimKeyIdOverflow
  let contextHash ← ofContext (Email.context H asset entry.authority keyId key)
  refuseIf (contextHash = 0) .invalidDkimKey
  requireAuth entry.authority
  let registeredLedger ← ledgerSequence
  persistentSet (.dkimKey asset keyId) { key, registeredLedger, contextHash }
  persistentSet (.dkimKeyCount asset) keyId
  extendEntry (.dkimKey asset keyId)
  extendEntry (.dkimKeyCount asset)
  extendContract
  return keyId

/-! ## Inclusion -/

/-- The loop of `inclusion`: the hash that the path reproduces. -/
def inclusionWalk (poseidon2 : List Fr → Fr) : U256 → U32 → List U256 → Except Error U256
  | hash, _, [] => .ok hash
  | hash, position, sibling :: path =>
    if ¬ frInRange sibling then .error .invalidInclusion
    else
      inclusionWalk poseidon2
        (if position &&& 1 = 0 then nodeHash poseidon2 hash sibling
          else nodeHash poseidon2 sibling hash)
        (position >>> 1) path

/-- Checks that the evidence reproduces the root. -/
def inclusion (poseidon2 : List Fr → Fr) (root : U256) (evidence : InclusionEvidence) :
    Except Error Unit :=
  if evidence.path.length ≠ MERKLE_PATH_DEPTH ∨
      checkedShr evidence.position MERKLE_PATH_DEPTH ≠ some 0 ∨
      evidence.id = BitVec.ofNat 256 PADDING_LEAF_ID ∨
      ¬ frInRange evidence.id ∨
      ¬ frInRange evidence.commitment then
    .error .invalidInclusion
  else
    match inclusionWalk poseidon2 (leafHash poseidon2 evidence.id evidence.commitment)
        evidence.position evidence.path with
    | .error reason => .error reason
    | .ok hash => if hash ≠ root then .error .invalidInclusion else .ok ()

/-! ## Disputes and bonds -/

/-- The entry of one asset. -/
def assetEntry (asset : Address) : Contract H AssetEntry := do
  let stored ← persistentGet (.asset asset)
  okOr stored .assetNotRegistered

/-- The bond of an asset that nobody funded. -/
def Bond.none : Bond := { available := 0, burned := 0 }

/-- The bond of one asset. -/
def bond (asset : Address) : Contract H Bond := do
  let stored ← persistentGet (.bond asset)
  return stored.getD Bond.none

/-- An open dispute under a key. -/
def openRecord (asset : Address) (targetId : U64) (id : U256) : Contract H Dispute := do
  let stored ← persistentGet (.dispute asset targetId id)
  let dispute ← okOr stored .disputeNotFound
  refuseIf (dispute.status ≠ .open) .disputeClosed
  return dispute

/-- The identifier and the origin that the evidence of a new dispute proves. -/
def proveOrigin (asset : Address) (targetId : U64) :
    DisputeEvidence → Contract H (U256 × DisputeOrigin)
  | .inclusion opening => do
    refuseIf (targetId ≤ opening.attestationId) .evidenceNotOlder
    let old ← History.read asset opening.attestationId
    ofResult (inclusion H.poseidon2 old.finalRoot opening.inclusion)
    return (opening.inclusion.id, .inclusion opening.attestationId)
  | .email evidence => do
    Email.verify asset evidence
    return (evidence.id, .email evidence.keyId)

/-- Fixes the target and holds the deposit after the evidence check.  An absent
target selects the newest attestation. -/
def openDispute (asset disputer : Address) (target : Option U64) (evidence : DisputeEvidence) :
    Contract H Dispute := do
  let _ ← assetEntry asset
  let count ← History.count asset
  let targetId := target.getD count
  let targetRecord ← History.read asset targetId
  let now ← ledgerSequence
  refuseIf (now < targetRecord.attestedLedger ∨
    TARGET_MAX_AGE_LEDGERS < now - targetRecord.attestedLedger) .targetOutsideWindow
  let (identifier, origin) ← proveOrigin asset targetId evidence
  let stored ← persistentGet (.dispute asset targetId identifier)
  refuseIf (stored.isSome = true) .disputeAlreadyExists
  let deadline ← okOr (checkedAdd now ANSWER_WINDOW_LEDGERS) .deadlineOverflow
  requireAuth disputer
  let dispute : Dispute :=
    { disputer, origin, targetId, identifier, openedLedger := now, deadline, status := .open,
      closedLedger := 0, burnedBond := 0 }
  save (.dispute asset targetId identifier) dispute
  transfer disputer H.currentContract DISPUTE_DEPOSIT_STROOPS
  return dispute

/-- Pays the deposit to the authority after an inclusion check under the fixed
target. -/
def answerDispute (asset : Address) (targetId : U64) (evidence : InclusionEvidence) :
    Contract H Unit := do
  let entry ← assetEntry asset
  let dispute ← openRecord asset targetId evidence.id
  let now ← ledgerSequence
  refuseIf (dispute.deadline < now) .answerWindowClosed
  let target ← History.read asset targetId
  ofResult (inclusion H.poseidon2 target.finalRoot evidence)
  requireAuth entry.authority
  save (.dispute asset targetId evidence.id)
    { dispute with status := .answered, closedLedger := now }
  transfer H.currentContract entry.authority DISPUTE_DEPOSIT_STROOPS

/-- Refunds the deposit and locks the bond after no answer. -/
def resolveDispute (asset : Address) (targetId : U64) (id : U256) : Contract H Unit := do
  let dispute ← openRecord asset targetId id
  let now ← ledgerSequence
  refuseIf (now ≤ dispute.deadline) .answerWindowOpen
  let allocation ← bond asset
  let burned ← okOr (allocation.burned.checkedAdd allocation.available) .bondOverflow
  save (.bond asset) { available := 0, burned }
  save (.dispute asset targetId id)
    { dispute with
      burnedBond := allocation.available, status := .omissionProven, closedLedger := now }
  transfer H.currentContract dispute.disputer DISPUTE_DEPOSIT_STROOPS

/-- Adds an optional bond.  No function permits a withdrawal. -/
def fundBond (asset : Address) (amount : I128) : Contract H Unit := do
  let entry ← assetEntry asset
  refuseIf (amount.val ≤ 0) .invalidBondAmount
  let allocation ← bond asset
  let available ← okOr (allocation.available.checkedAdd amount) .bondOverflow
  let _ ← okOr (available.checkedAdd allocation.burned) .bondOverflow
  requireAuth entry.authority
  save (.bond asset) { allocation with available }
  transfer entry.authority H.currentContract amount

end ZkPoR
