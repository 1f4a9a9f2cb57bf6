import ZkPoR.Context
import ZkPoR.TypedStore
import ZkPoR.Transaction

/-! # The registry contract: records, storage, and the host

The types of `contracts/registry` and the part of the chain that its functions
read and write.  `State` is the storage of one deployed registry, the ledger
header, and the native token balances of all addresses; `Host` is what never
changes for a deployment; `Invocation` is what one call supplies: who authorized
it, and what other contracts answer during it.

Storage is one typed store under `DataKey`, as in the contract, so a write of a
key of one kind leaves every other kind alone by the type of the key.
-/
namespace ZkPoR
open ByteString CheckedInt TypedStore Transaction

/-! ## Constants -/

/-- The serialized native asset. -/
def NATIVE_ASSET_XDR : Bytes := [0, 0, 0, 0]
/-- Number of elements of the public input byte string of the terminal proof. -/
def PUBLIC_INPUT_COUNT : Nat := 4
/-- Number of sibling hashes in one customer path. -/
def MERKLE_PATH_DEPTH : Nat := 12
def CONTEXT_HASH_INDEX : Nat := 0
def INNER_KEY_HASH_INDEX : Nat := 1
def FINAL_ROOT_INDEX : Nat := 2
def L_INDEX : Nat := 3

def ANSWER_WINDOW_LEDGERS : U32 := 51840
def TARGET_MAX_AGE_LEDGERS : U32 := 518400

/-- The deposit of one dispute, in stroops. -/
def DISPUTE_DEPOSIT_STROOPS : I128 := ⟨100000000, by norm_num, by norm_num⟩

/-- SHA-256 of the aggregator verification key that this build expects. -/
def AGGREGATOR_KEY_SHA256 : BytesN 32 := ⟨[
  0x92, 0xcd, 0x8d, 0xea, 0xf4, 0x0d, 0x80, 0x24, 0xa9, 0xec, 0xe6, 0xc9, 0xd2, 0x39, 0x5e, 0xa7,
  0x5c, 0xfe, 0x5a, 0x73, 0x9b, 0x3e, 0x80, 0xea, 0xbf, 0x35, 0x70, 0x34, 0x95, 0xf4, 0x1f, 0x44],
  rfl⟩

/-- SHA-256 of the email verification key that this build expects. -/
def EMAIL_KEY_SHA256 : BytesN 32 := ⟨[
  0xdc, 0x82, 0x16, 0xda, 0x16, 0x3a, 0x16, 0xda, 0x9d, 0xfe, 0xf9, 0xa2, 0xdb, 0xe7, 0x8d, 0x74,
  0xb4, 0x0b, 0x57, 0x5f, 0xa6, 0xcc, 0xcb, 0xdc, 0xd0, 0x33, 0x27, 0x7c, 0x52, 0x0f, 0x45, 0xef],
  rfl⟩

/-- The tree hash of the pinned inner verification key. -/
def INNER_KEY_HASH : BytesN 32 := ⟨[
  0x2a, 0x7f, 0x30, 0x5e, 0x8f, 0xfc, 0x8a, 0xda, 0xb2, 0x41, 0xa6, 0xf3, 0xdf, 0xf6, 0x41, 0xd4,
  0xee, 0xfc, 0x5e, 0x10, 0x3b, 0xc9, 0x47, 0xd5, 0x4c, 0x67, 0xf2, 0x46, 0x5d, 0x82, 0x85, 0xac],
  rfl⟩

/-! ## Records -/

/-- Why the registry refused. -/
inductive Error
  | unsupportedAddressType | emptyReserveSet | tooManyReserveAddresses | duplicateReserveAddress
  | verifierKeyMismatch | assetAlreadyRegistered | assetNotRegistered | malformedAsset
  | nativeAssetNotSupported | notTheCanonicalAssetContract | issuerMismatch | administratorMissing
  | administratorMismatch | authorityInReserveSet | snapshotOutsideWindow | proofRejected
  | reserveBalanceUnavailable | reserveSumOverflow | verifierNotSet | rootOutOfRange
  | attestationNotFound | attestationIdOverflow | targetOutsideWindow | evidenceNotOlder
  | invalidInclusion | disputeAlreadyExists | disputeNotFound | disputeClosed | answerWindowClosed
  | answerWindowOpen | deadlineOverflow | invalidBondAmount | bondOverflow | observationNotFound
  | observationIdOverflow | dkimKeyNotFound | dkimKeyIdOverflow | invalidDkimKey
  | invalidEmailIdentifier | emailVerifierNotSet | emailVerifierKeyMismatch | emailProofRejected
deriving DecidableEq

/-- The reasons of the shared encoding keep their identity. -/
def Error.ofContext : ContextError → Error
  | .unsupportedAddressType => .unsupportedAddressType
  | .emptyReserveSet => .emptyReserveSet
  | .tooManyReserveAddresses => .tooManyReserveAddresses
  | .duplicateReserveAddress => .duplicateReserveAddress

/-- Why a call failed: a reason of the registry, a missing authorization, or a
failure of a contract that the registry called without a fallback. -/
inductive Fault
  | error (reason : Error)
  | unauthorized (address : Address)
  | hostTrap
deriving DecidableEq

/-- What the registry verified about the authority at registration. -/
inductive AssetTier
  | classicIssuer
  | contractAdministrator
deriving DecidableEq

/-- What the caller supplies for the tier that it claims. -/
inductive AssetAuthenticity
  | classic (serializedAsset : Bytes)
  | contract
deriving DecidableEq

/-- The record of one accepted attestation. -/
structure Attestation where
  contextHash : U256
  finalRoot : U256
  totalLiabilities : U128
  snapshotLedger : U32
  reserveSum : I128
  attestedLedger : U32
deriving DecidableEq

/-- The attestation slot of an entry. -/
inductive AttestationSlot
  | empty
  | filled (attestation : Attestation)
deriving DecidableEq

/-- The entry of one registered asset. -/
structure AssetEntry where
  authority : Address
  tier : AssetTier
  reserves : List Address
  reserveSetHash : U256
  attestation : AttestationSlot
deriving DecidableEq

/-- The event of one accepted attestation. -/
structure AttestationAccepted where
  attestationId : U64
  asset : Address
  snapshotLedger : U32
  attestedLedger : U32
  totalLiabilities : U128
  reserveSum : I128
  finalRoot : U256
deriving DecidableEq

structure InclusionEvidence where
  id : U256
  commitment : U256
  path : List U256
  position : U32
deriving DecidableEq

structure InclusionOpening where
  attestationId : U64
  inclusion : InclusionEvidence
deriving DecidableEq

structure EmailEvidence where
  keyId : U64
  id : U256
  proof : Bytes
deriving DecidableEq

inductive DisputeEvidence
  | inclusion (opening : InclusionOpening)
  | email (evidence : EmailEvidence)
deriving DecidableEq

inductive DisputeOrigin
  | inclusion (attestationId : U64)
  | email (keyId : U64)
deriving DecidableEq

inductive DisputeStatus
  | open
  | answered
  | omissionProven
deriving DecidableEq

structure Dispute where
  disputer : Address
  origin : DisputeOrigin
  targetId : U64
  identifier : U256
  openedLedger : U32
  deadline : U32
  status : DisputeStatus
  closedLedger : U32
  burnedBond : I128
deriving DecidableEq

structure Bond where
  available : I128
  burned : I128
deriving DecidableEq

structure ReserveObservation where
  observationId : U64
  observedSum : I128
  observedLedger : U32
  reserveSetHash : U256
  attestationId : Option U64
  belowAttested : Bool
deriving DecidableEq

structure ObservationStatus where
  observationCount : U64
  firstLowObservation : Option U64
deriving DecidableEq

structure DkimKeyInput where
  modulusHash : U256
  redcHash : U256
  domainHash : BytesN 32
  fromHeaderHash : BytesN 32
deriving DecidableEq

structure DkimKey where
  key : DkimKeyInput
  registeredLedger : U32
  contextHash : U256
deriving DecidableEq

/-! ## Storage -/

inductive DataKey
  | verifier
  | emailVerifier
  | asset (asset : Address)
  | attestationCount (asset : Address)
  | attestation (asset : Address) (id : U64)
  | dispute (asset : Address) (targetId : U64) (identifier : U256)
  | bond (asset : Address)
  | observation (asset : Address) (id : U64)
  | observationStatus (asset : Address)
  | dkimKeyCount (asset : Address)
  | dkimKey (asset : Address) (id : U64)
deriving DecidableEq

/-- The type of the value under a key. -/
abbrev DataKey.Val : DataKey → Type
  | .verifier => Address
  | .emailVerifier => Address
  | .asset _ => AssetEntry
  | .attestationCount _ => U64
  | .attestation _ _ => Attestation
  | .dispute _ _ _ => Dispute
  | .bond _ => Bond
  | .observation _ _ => ReserveObservation
  | .observationStatus _ => ObservationStatus
  | .dkimKeyCount _ => U64
  | .dkimKey _ _ => DkimKey

/-- The asset that a persistent key belongs to. -/
def DataKey.owner : DataKey → Option Address
  | .verifier => none
  | .emailVerifier => none
  | .asset a => some a
  | .attestationCount a => some a
  | .attestation a _ => some a
  | .dispute a _ _ => some a
  | .bond a => some a
  | .observation a _ => some a
  | .observationStatus a => some a
  | .dkimKeyCount a => some a
  | .dkimKey a _ => some a

/-- What the contract reads of the ledger: its number, the largest time to live
that the network allows, and the time to live of a new persistent entry. -/
structure LedgerInfo where
  sequence : U32
  maxTtl : Nat
  minPersistentTtl : Nat
deriving DecidableEq

/-- One deployed registry, the ledger, and the native token. -/
structure State where
  ledger : LedgerInfo
  inst : Store DataKey DataKey.Val
  instLiveUntil : Nat
  persistent : Store DataKey DataKey.Val
  native : Address → Int
  events : List AttestationAccepted

/-- Native token balances after a transfer. -/
def moveFunds (native : Address → Int) (sender recipient : Address) (amount : Int) :
    Address → Int :=
  let debited := Function.update native sender (native sender - amount)
  Function.update debited recipient (debited recipient + amount)

namespace State

/-- The value under a persistent key. -/
def get (s : State) (k : DataKey) : Option k.Val := s.persistent.get k

/-- Writes a persistent key. -/
def put (s : State) (k : DataKey) (v : k.Val) : State :=
  { s with
    persistent := s.persistent.put (s.ledger.sequence.toNat + s.ledger.minPersistentTtl - 1) k v }

/-- Extends one persistent entry to the largest time to live. -/
def extendEntry (s : State) (k : DataKey) : State :=
  { s with
    persistent :=
      s.persistent.extendTtl s.ledger.sequence.toNat s.ledger.maxTtl s.ledger.maxTtl k }

/-- Extends the contract instance to the largest time to live. -/
def extendContract (s : State) : State :=
  if s.instLiveUntil < s.ledger.sequence.toNat + s.ledger.maxTtl ∧
      s.instLiveUntil - s.ledger.sequence.toNat ≤ s.ledger.maxTtl then
    { s with instLiveUntil := s.ledger.sequence.toNat + s.ledger.maxTtl }
  else s

/-- Writes a persistent key, and extends it and the contract. -/
def save (s : State) (k : DataKey) (v : k.Val) : State := ((s.put k v).extendEntry k).extendContract

/-- Moves native tokens. -/
def move (s : State) (sender recipient : Address) (amount : I128) : State :=
  { s with native := moveFunds s.native sender recipient amount.val }

/-- Publishes an event. -/
def publish (s : State) (event : AttestationAccepted) : State :=
  { s with events := s.events ++ [event] }

variable (s : State) (k k' : DataKey)

@[simp] theorem put_ledger (v : k.Val) : (s.put k v).ledger = s.ledger := rfl
@[simp] theorem put_inst (v : k.Val) : (s.put k v).inst = s.inst := rfl
@[simp] theorem put_native (v : k.Val) : (s.put k v).native = s.native := rfl
@[simp] theorem put_persistent (v : k.Val) :
    (s.put k v).persistent =
      s.persistent.put (s.ledger.sequence.toNat + s.ledger.minPersistentTtl - 1) k v := rfl

@[simp] theorem extendEntry_ledger : (s.extendEntry k).ledger = s.ledger := rfl
@[simp] theorem extendEntry_inst : (s.extendEntry k).inst = s.inst := rfl
@[simp] theorem extendEntry_native : (s.extendEntry k).native = s.native := rfl
@[simp] theorem extendEntry_persistent :
    (s.extendEntry k).persistent =
      s.persistent.extendTtl s.ledger.sequence.toNat s.ledger.maxTtl s.ledger.maxTtl k := rfl

@[simp] theorem extendContract_ledger : s.extendContract.ledger = s.ledger := by
  unfold extendContract; split <;> rfl
@[simp] theorem extendContract_inst : s.extendContract.inst = s.inst := by
  unfold extendContract; split <;> rfl
@[simp] theorem extendContract_native : s.extendContract.native = s.native := by
  unfold extendContract; split <;> rfl
@[simp] theorem extendContract_persistent : s.extendContract.persistent = s.persistent := by
  unfold extendContract; split <;> rfl

@[simp] theorem save_ledger (v : k.Val) : (s.save k v).ledger = s.ledger := by simp [save]
@[simp] theorem save_inst (v : k.Val) : (s.save k v).inst = s.inst := by simp [save]
@[simp] theorem save_native (v : k.Val) : (s.save k v).native = s.native := by simp [save]

@[simp] theorem move_ledger (a b : Address) (n : I128) : (s.move a b n).ledger = s.ledger := rfl
@[simp] theorem move_inst (a b : Address) (n : I128) : (s.move a b n).inst = s.inst := rfl
@[simp] theorem move_persistent (a b : Address) (n : I128) :
    (s.move a b n).persistent = s.persistent := rfl
@[simp] theorem move_native (a b : Address) (n : I128) :
    (s.move a b n).native = moveFunds s.native a b n.val := rfl

@[simp] theorem publish_ledger (e : AttestationAccepted) : (s.publish e).ledger = s.ledger := rfl
@[simp] theorem publish_inst (e : AttestationAccepted) : (s.publish e).inst = s.inst := rfl
@[simp] theorem publish_native (e : AttestationAccepted) : (s.publish e).native = s.native := rfl
@[simp] theorem publish_persistent (e : AttestationAccepted) :
    (s.publish e).persistent = s.persistent := rfl

@[simp] theorem put_instLiveUntil (v : k.Val) : (s.put k v).instLiveUntil = s.instLiveUntil := rfl
@[simp] theorem extendEntry_instLiveUntil :
    (s.extendEntry k).instLiveUntil = s.instLiveUntil := rfl
@[simp] theorem move_instLiveUntil (a b : Address) (n : I128) :
    (s.move a b n).instLiveUntil = s.instLiveUntil := rfl
@[simp] theorem publish_instLiveUntil (e : AttestationAccepted) :
    (s.publish e).instLiveUntil = s.instLiveUntil := rfl

theorem extendContract_instLiveUntil :
    s.extendContract.instLiveUntil =
      if s.instLiveUntil < s.ledger.sequence.toNat + s.ledger.maxTtl ∧
        s.instLiveUntil - s.ledger.sequence.toNat ≤ s.ledger.maxTtl then
      s.ledger.sequence.toNat + s.ledger.maxTtl else s.instLiveUntil := by
  unfold extendContract
  split <;> rfl

@[simp] theorem save_instLiveUntil (v : k.Val) :
    (s.save k v).instLiveUntil = s.extendContract.instLiveUntil := by
  rw [save, extendContract_instLiveUntil, extendContract_instLiveUntil]
  rfl

@[simp] theorem put_events (v : k.Val) : (s.put k v).events = s.events := rfl
@[simp] theorem extendEntry_events : (s.extendEntry k).events = s.events := rfl
@[simp] theorem extendContract_events : s.extendContract.events = s.events := by
  unfold extendContract; split <;> rfl
@[simp] theorem save_events (v : k.Val) : (s.save k v).events = s.events := by simp [save]
@[simp] theorem move_events (a b : Address) (n : I128) : (s.move a b n).events = s.events := rfl

@[simp] theorem get_put_self (v : k.Val) : (s.put k v).get k = some v := by simp [get]

theorem get_put_of_ne (v : k.Val) (h : k' ≠ k) : (s.put k v).get k' = s.get k' := by
  simp [get, Store.get_put_of_ne, h]

@[simp] theorem get_extendEntry : (s.extendEntry k).get k' = s.get k' := by simp [get]
@[simp] theorem get_extendContract : s.extendContract.get k' = s.get k' := by simp [get]

@[simp] theorem get_save_self (v : k.Val) : (s.save k v).get k = some v := by simp [save]

theorem get_save_of_ne (v : k.Val) (h : k' ≠ k) : (s.save k v).get k' = s.get k' := by
  simp [save, get_put_of_ne, h]

@[simp] theorem get_move (a b : Address) (n : I128) : (s.move a b n).get k' = s.get k' := rfl
@[simp] theorem get_publish (e : AttestationAccepted) : (s.publish e).get k' = s.get k' := rfl

end State

theorem moveFunds_sender {native : Address → Int} {sender recipient : Address} {amount : Int}
    (h : sender ≠ recipient) :
    moveFunds native sender recipient amount sender = native sender - amount := by
  simp [moveFunds, h]

theorem moveFunds_recipient {native : Address → Int} {sender recipient : Address} {amount : Int}
    (h : sender ≠ recipient) :
    moveFunds native sender recipient amount recipient = native recipient + amount := by
  simp [moveFunds, h.symm]

/-! ## The host -/

/-- What stays fixed for one deployment: the address of the registry, the
network, the hash functions, and the asset contract that belongs to a serialized
asset.  A serialized asset that the host refuses has none. -/
structure Host where
  currentContract : Address
  networkId : BytesN 32
  poseidon2 : List Fr → Fr
  sha256 : Bytes → BytesN 32
  deployedAddress : Bytes → Option Address
  nativeContract : Address
  deployed_native : deployedAddress NATIVE_ASSET_XDR = some nativeContract

/-- What one call supplies: the addresses that authorized it, and the answers of
the other contracts during it.  An answer of `none` covers every
failure of the called function.

The registry never authorizes a call, except as the direct caller of the native
token in its own code. -/
structure Invocation (H : Host) where
  authorized : Address → Bool
  not_self : authorized H.currentContract = false
  /-- `vk_bytes` of a verifier contract. -/
  vkBytes : Address → Option Bytes
  /-- `admin` of a token contract. -/
  admin : Address → Option Address
  /-- `balance` of a token contract, for one holder. -/
  balance : Address → Address → Option I128
  /-- `verify_proof` of a verifier contract, for public inputs and a proof. -/
  verifyProof : Address → Bytes → Bytes → Option Unit
  /-- Whether the native token accepts a transfer, balances apart. -/
  transferAccepted : Address → Address → I128 → Bool

/-- A call of the registry: a transaction over its state. -/
abbrev Contract (H : Host) (α : Type) : Type := Tx (Invocation H) State Fault α

namespace Contract
variable {H : Host}

/-- Reads a persistent key. -/
@[simp] def persistentGet (k : DataKey) : Contract H (Option k.Val) :=
  Tx.reads fun _ s => s.get k

/-- Reads a key of the contract instance. -/
@[simp] def instanceGet (k : DataKey) : Contract H (Option k.Val) :=
  Tx.reads fun _ s => s.inst.get k

/-- The number of the current ledger. -/
@[simp] def ledgerSequence : Contract H U32 := Tx.reads fun _ s => s.ledger.sequence

/-- Writes a key of the contract instance, which shares the lifetime of the instance. -/
@[simp] def instanceSet (k : DataKey) (v : k.Val) : Contract H Unit :=
  Tx.modify fun s => { s with inst := s.inst.put s.instLiveUntil k v }

@[simp] def persistentSet (k : DataKey) (v : k.Val) : Contract H Unit :=
  Tx.modify fun s => s.put k v

@[simp] def extendEntry (k : DataKey) : Contract H Unit := Tx.modify fun s => s.extendEntry k

@[simp] def extendContract : Contract H Unit := Tx.modify State.extendContract

@[simp] def save (k : DataKey) (v : k.Val) : Contract H Unit := Tx.modify fun s => s.save k v

@[simp] def publish (event : AttestationAccepted) : Contract H Unit :=
  Tx.modify fun s => s.publish event

/-- `Err(reason)` when the condition holds. -/
@[simp] def refuseIf (c : Prop) [Decidable c] (reason : Error) : Contract H Unit :=
  Tx.refuseIf c (.error reason)

/-- `ok_or(reason)`. -/
@[simp] def okOr {α : Type} (o : Option α) (reason : Error) : Contract H α :=
  Tx.orFail o (.error reason)

/-- The answer of a call to another contract that falls back to a reason. -/
@[simp] def tryInvoke {α : Type} (answer : Invocation H → Option α) (reason : Error) :
    Contract H α := do
  let answered ← Tx.reads fun invocation _ => answer invocation
  Tx.orFail answered (.error reason)

/-- The answer of a call to another contract that has no fallback. -/
@[simp] def invoke {α : Type} (answer : Invocation H → Option α) : Contract H α := do
  let answered ← Tx.reads fun invocation _ => answer invocation
  Tx.orFail answered .hostTrap

/-- The result of a function that reads no state. -/
@[simp] def ofResult {α : Type} (x : Except Error α) : Contract H α := Tx.lift Fault.error x

/-- The result of a function of the shared encoding. -/
@[simp] def ofContext {α : Type} (x : Except ContextError α) : Contract H α :=
  Tx.lift (fun reason => .error (.ofContext reason)) x

/-- Fails unless the address authorized the call. -/
def requireAuth (address : Address) : Contract H Unit := fun invocation s =>
  if invocation.authorized address then .ok ((), s) else .error (.unauthorized address)

/-- The `transfer` of the native token: it moves exactly the amount, or fails. -/
def transfer (sender recipient : Address) (amount : I128) : Contract H Unit := fun invocation s =>
  if 0 ≤ amount.val ∧ amount.val ≤ s.native sender ∧
      invocation.transferAccepted sender recipient amount then
    .ok ((), s.move sender recipient amount)
  else .error .hostTrap

variable {invocation : Invocation H} {s s' : State}

@[simp] theorem requireAuth_eq_ok {address : Address} {u : Unit} :
    (requireAuth address : Contract H Unit) invocation s = .ok (u, s') ↔
      invocation.authorized address = true ∧ s = s' := by
  unfold requireAuth
  split <;> simp [*]

@[simp] theorem requireAuth_eq_error {address : Address} {fault : Fault} :
    (requireAuth address : Contract H Unit) invocation s = .error fault ↔
      invocation.authorized address = false ∧ .unauthorized address = fault := by
  unfold requireAuth
  split <;> simp [*]

@[simp] theorem transfer_eq_ok {sender recipient : Address} {amount : I128} {u : Unit} :
    (transfer sender recipient amount : Contract H Unit) invocation s = .ok (u, s') ↔
      (0 ≤ amount.val ∧ amount.val ≤ s.native sender ∧
        invocation.transferAccepted sender recipient amount = true) ∧
      s.move sender recipient amount = s' := by
  unfold transfer
  split <;> simp [*]

@[simp] theorem transfer_eq_error {sender recipient : Address} {amount : I128} {fault : Fault} :
    (transfer sender recipient amount : Contract H Unit) invocation s = .error fault ↔
      ¬ (0 ≤ amount.val ∧ amount.val ≤ s.native sender ∧
        invocation.transferAccepted sender recipient amount = true) ∧ .hostTrap = fault := by
  unfold transfer
  split <;> simp [*]

/-- An address that authorized a call is not the registry. -/
theorem ne_self_of_authorized {address : Address} (h : invocation.authorized address = true) :
    address ≠ H.currentContract := by
  rintro rfl
  rw [invocation.not_self] at h
  cases h

end Contract
end ZkPoR
