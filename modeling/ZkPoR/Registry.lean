import ZkPoR.RegistryState

/-! # The registry contract: assets, attestations, observations

`register_asset`, `set_reserves`, and `submit_attestation` of `lib.rs`, the
history of `history.rs`, and the observations of `observations.rs`, each as a
transaction.  The order of the guards is the order of the source, because the
order decides which reason a caller reads.
-/
namespace ZkPoR
open ByteString CheckedInt TypedStore Transaction
open Contract

/-! ## Serialized assets -/

/-- XDR discriminants of the asset kinds and of the public key type. -/
def ASSET_TYPE_NATIVE : U32 := 0
def ASSET_TYPE_ALPHANUM4 : U32 := 1
def ASSET_TYPE_ALPHANUM12 : U32 := 2
def PUBLIC_KEY_TYPE_ED25519 : U32 := 0
/-- Byte lengths of a discriminant, of the two codes, and of a public key. -/
def XDR_DISCRIMINANT_BYTES : Nat := 4
def ASSET_CODE4_BYTES : Nat := 4
def ASSET_CODE12_BYTES : Nat := 12
def ED25519_KEY_BYTES : Nat := 32

/-- Reads a big-endian `u32` at one offset of a byte string. -/
def u32At (bytes : Bytes) (offset : Nat) : Except Error U32 :=
  if bytes.length < offset + XDR_DISCRIMINANT_BYTES then
    .error .malformedAsset
  else
    .ok ((List.range XDR_DISCRIMINANT_BYTES).foldl
      (fun value index => (value <<< 8) ||| (bytes.getD (offset + index) 0).toBitVec.setWidth 32) 0)

/-- The byte length of the asset code that a type announces. -/
def codeBytes (assetType : U32) : Except Error Nat :=
  if assetType = ASSET_TYPE_NATIVE then .error .nativeAssetNotSupported
  else if assetType = ASSET_TYPE_ALPHANUM4 then .ok ASSET_CODE4_BYTES
  else if assetType = ASSET_TYPE_ALPHANUM12 then .ok ASSET_CODE12_BYTES
  else .error .malformedAsset

/-- The issuer account of a serialized classic asset. -/
def classicIssuer (serializedAsset : Bytes) : Except Error Address := do
  let assetType ← u32At serializedAsset 0
  let code ← codeBytes assetType
  let keyTypeAt := XDR_DISCRIMINANT_BYTES + code
  let keyAt := keyTypeAt + XDR_DISCRIMINANT_BYTES
  if serializedAsset.length ≠ keyAt + ED25519_KEY_BYTES then
    throw .malformedAsset
  let keyType ← u32At serializedAsset keyTypeAt
  if keyType ≠ PUBLIC_KEY_TYPE_ED25519 then
    throw .malformedAsset
  if h : ((serializedAsset.drop keyAt).take ED25519_KEY_BYTES).length = 32 then
    return .ofPayload (.accountIdPublicKeyEd25519 ⟨_, h⟩)
  else
    throw .malformedAsset

/-! ## Public inputs, reserves, and the history -/

/-- The public input byte string of the terminal proof: 32 bytes for each
element, each at the position that the artifact fixes. -/
def publicInputs (context finalRoot : U256) (totalLiabilities : U128) : Bytes :=
  let fields : List Bytes := List.replicate PUBLIC_INPUT_COUNT []
  let fields := fields.set CONTEXT_HASH_INDEX (toBeBytes context)
  let fields := fields.set INNER_KEY_HASH_INDEX INNER_KEY_HASH.toList
  let fields := fields.set FINAL_ROOT_INDEX (toBeBytes finalRoot)
  let fields := fields.set L_INDEX (toBeBytes (BitVec.ofNat 256 totalLiabilities.toNat))
  fields.flatten

/-- The public inputs name the context, the root, and the total. -/
theorem publicInputs_inj {context context' finalRoot finalRoot' : U256}
    {totalLiabilities totalLiabilities' : U128}
    (h : publicInputs context finalRoot totalLiabilities =
      publicInputs context' finalRoot' totalLiabilities') :
    context = context' ∧ finalRoot = finalRoot' ∧ totalLiabilities = totalLiabilities' := by
  have hflat : ∀ (c r : U256) (n : U128), publicInputs c r n = toBeBytes c ++
      (INNER_KEY_HASH.toList ++ (toBeBytes r ++ toBeBytes (BitVec.ofNat 256 n.toNat))) :=
    fun c r n => by
      simp [publicInputs, PUBLIC_INPUT_COUNT, CONTEXT_HASH_INDEX, INNER_KEY_HASH_INDEX,
        FINAL_ROOT_INDEX, L_INDEX, List.replicate]
  rw [hflat, hflat] at h
  obtain ⟨hcontext, h⟩ := List.append_inj h (by simp)
  obtain ⟨hroot, htotal⟩ := List.append_inj (List.append_cancel_left h) (by simp)
  have hnat := congrArg BitVec.toNat (toBeBytes_injective htotal)
  have hbound : ∀ n : U128, n.toNat < 2 ^ 256 := fun n => n.isLt.trans (by norm_num)
  rw [BitVec.toNat_ofNat, BitVec.toNat_ofNat, Nat.mod_eq_of_lt (hbound _),
    Nat.mod_eq_of_lt (hbound _)] at hnat
  exact ⟨toBeBytes_injective hcontext, toBeBytes_injective hroot, BitVec.eq_of_toNat_eq hnat⟩

/-- Refuses a reserve set that names the recorded authority. -/
def rejectAuthorityAsReserve (authority : Address) : List Address → Except Error Unit
  | [] => .ok ()
  | reserve :: reserves =>
    if reserve = authority then .error .authorityInReserveSet
    else rejectAuthorityAsReserve authority reserves

/-- The loop of `reserveSum`, from a running total. -/
def reserveSumFrom (balance : Address → Option I128) :
    I128 → List Address → Except Error I128
  | total, [] => .ok total
  | total, reserve :: reserves =>
    match balance reserve with
    | none => .error .reserveBalanceUnavailable
    | some held =>
      match total.checkedAdd held with
      | none => .error .reserveSumOverflow
      | some total => reserveSumFrom balance total reserves

variable {H : Host}

/-- Asks the verifier to check one proof. -/
def verify (inputs proof : Bytes) : Contract H Unit := do
  let stored ← instanceGet .verifier
  let verifier ← okOr stored .verifierNotSet
  tryInvoke (fun invocation => invocation.verifyProof verifier inputs proof) .proofRejected

/-- Sums the balances that the reserve addresses hold in the registered asset. -/
def reserveSum (asset : Address) (reserves : List Address) : Contract H I128 := do
  let balance ← Tx.reads fun invocation _ => invocation.balance asset
  ofResult (reserveSumFrom balance 0 reserves)

/-- The last history identifier of an asset. -/
def History.count (asset : Address) : Contract H U64 := do
  let stored ← persistentGet (.attestationCount asset)
  return stored.getD 0

/-- One record of the history. -/
def History.read (asset : Address) (id : U64) : Contract H Attestation := do
  let stored ← persistentGet (.attestation asset id)
  okOr stored .attestationNotFound

/-- Adds one record to the history, under the next identifier. -/
def History.append (asset : Address) (attestation : Attestation) : Contract H U64 := do
  let count ← History.count asset
  let id ← okOr (checkedAdd count 1) .attestationIdOverflow
  persistentSet (.attestation asset id) attestation
  persistentSet (.attestationCount asset) id
  extendEntry (.attestation asset id)
  extendEntry (.attestationCount asset)
  return id

/-! ## The functions of `lib.rs` -/

/-- Binds the registry to its two verifiers at deployment. -/
def constructor (verifier emailVerifier : Address) : Contract H Unit := do
  let key ← Contract.invoke fun invocation => invocation.vkBytes verifier
  refuseIf (H.sha256 key ≠ AGGREGATOR_KEY_SHA256) .verifierKeyMismatch
  instanceSet .verifier verifier
  let emailKey ← Contract.invoke fun invocation => invocation.vkBytes emailVerifier
  refuseIf (H.sha256 emailKey ≠ EMAIL_KEY_SHA256) .emailVerifierKeyMismatch
  instanceSet .emailVerifier emailVerifier
  extendContract

/-- The tier that the supplied authenticity establishes for the authority. -/
def authenticate (asset authority : Address) : AssetAuthenticity → Contract H AssetTier
  | .classic serializedAsset => do
    let issuer ← ofResult (classicIssuer serializedAsset)
    let canonical ← Contract.invoke fun _ => H.deployedAddress serializedAsset
    refuseIf (canonical ≠ asset) .notTheCanonicalAssetContract
    refuseIf (issuer ≠ authority) .issuerMismatch
    return .classicIssuer
  | .contract => do
    refuseIf (asset = H.nativeContract) .nativeAssetNotSupported
    let administrator ←
      tryInvoke (fun invocation => invocation.admin asset) .administratorMissing
    refuseIf (administrator ≠ authority) .administratorMismatch
    return .contractAdministrator

/-- Registers one asset, its authority, and its reserve addresses. -/
def registerAsset (asset authority : Address) (authenticity : AssetAuthenticity)
    (reserves : List Address) : Contract H Unit := do
  let stored ← persistentGet (.asset asset)
  refuseIf (stored.isSome = true) .assetAlreadyRegistered
  let tier ← authenticate asset authority authenticity
  ofResult (rejectAuthorityAsReserve authority reserves)
  let hash ← ofContext (reserveSetHash H.poseidon2 reserves)
  requireAuth authority
  Tx.forEach reserves requireAuth
  persistentSet (.asset asset)
    { authority, tier, reserves, reserveSetHash := hash, attestation := .empty }
  extendEntry (.asset asset)
  extendContract

/-- Replaces the reserve addresses of one registered asset.  A stored attestation
binds the reserve set that it was proven against, so it does not survive. -/
def setReserves (asset : Address) (reserves : List Address) : Contract H Unit := do
  let stored ← persistentGet (.asset asset)
  let entry ← okOr stored .assetNotRegistered
  ofResult (rejectAuthorityAsReserve entry.authority reserves)
  let hash ← ofContext (reserveSetHash H.poseidon2 reserves)
  requireAuth entry.authority
  Tx.forEach reserves requireAuth
  persistentSet (.asset asset)
    { entry with reserveSetHash := hash, reserves, attestation := .empty }
  extendEntry (.asset asset)
  extendContract

/-- Records one attestation for a registered asset. -/
def submitAttestation (asset : Address) (snapshotLedger : U32) (finalRoot : U256)
    (totalLiabilities : U128) (proof : Bytes) : Contract H U64 := do
  let stored ← persistentGet (.asset asset)
  let entry ← okOr stored .assetNotRegistered
  let attestedLedger ← ledgerSequence
  refuseIf (attestedLedger < snapshotLedger ∨
    saturatingAdd snapshotLedger ATTESTATION_MAX_AGE_LEDGERS < attestedLedger)
    .snapshotOutsideWindow
  refuseIf (¬ frInRange finalRoot) .rootOutOfRange
  requireAuth entry.authority
  let context ← ofContext
    (contextHash H.poseidon2 entry.authority asset entry.reserveSetHash snapshotLedger)
  verify (publicInputs context finalRoot totalLiabilities) proof
  let reserveSum ← reserveSum asset entry.reserves
  let attestation : Attestation :=
    { contextHash := context, finalRoot, totalLiabilities, snapshotLedger, reserveSum,
      attestedLedger }
  let attestationId ← History.append asset attestation
  persistentSet (.asset asset) { entry with attestation := .filled attestation }
  extendEntry (.asset asset)
  extendContract
  publish
    { attestationId, asset, snapshotLedger, attestedLedger, totalLiabilities, reserveSum,
      finalRoot }
  return attestationId

/-! ## Observations -/

/-- The observation status of an asset. -/
def status (asset : Address) : Contract H ObservationStatus := do
  let stored ← persistentGet (.observationStatus asset)
  return stored.getD { observationCount := 0, firstLowObservation := none }

/-- The attestation that an observation compares with, and the comparison. -/
def baseline (asset : Address) (observedSum : I128) :
    AttestationSlot → Contract H (Option U64 × Bool)
  | .empty => return (none, false)
  | .filled _ => do
    let id ← History.count asset
    let attestation ← History.read asset id
    return (some id, decide (observedSum.val < attestation.reserveSum.val))

/-- The status after one more observation. -/
def ObservationStatus.observe (state : ObservationStatus) (id : U64) (belowAttested : Bool) :
    ObservationStatus :=
  { observationCount := id
    firstLowObservation :=
      if belowAttested = true ∧ state.firstLowObservation = none then some id
      else state.firstLowObservation }

/-- Records the reserve balances that the contract reads in this call. -/
def observeReserves (asset : Address) : Contract H ReserveObservation := do
  let stored ← persistentGet (.asset asset)
  let entry ← okOr stored .assetNotRegistered
  let state ← status asset
  let observationId ← okOr (checkedAdd state.observationCount 1) .observationIdOverflow
  let observedSum ← reserveSum asset entry.reserves
  let (attestationId, belowAttested) ← baseline asset observedSum entry.attestation
  let observedLedger ← ledgerSequence
  let observation : ReserveObservation :=
    { observationId, observedSum, observedLedger, reserveSetHash := entry.reserveSetHash,
      attestationId, belowAttested }
  persistentSet (.observation asset observationId) observation
  persistentSet (.observationStatus asset) (state.observe observationId belowAttested)
  extendEntry (.observation asset observationId)
  extendEntry (.observationStatus asset)
  extendContract
  return observation

end ZkPoR
