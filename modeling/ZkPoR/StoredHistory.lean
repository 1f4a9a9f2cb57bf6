import ZkPoR.Pagination
import ZkPoR.RegistryEndpoint
import ZkPoR.SdkInclusion

/-! # The stored histories of the SDK

`readStoredAttestationHistory` and `readStoredObservationHistory` read one page of a
history: a count, and then one request for each record.  The two readers are one reader
with different requests (`readHistory`).
-/
namespace ZkPoR.Sdk
open CheckedInt BoundedLoop JsonText JavaScript Binary64 Transaction TransitionSystem Pagination

def HISTORY_PAGE_LIMIT : Nat := 200

/-! ## The requests -/

/-- A reading sends one request after the other.  The n-th one meets the n-th state of
the endpoint. -/
abbrev Reading (α : Type) : Type := Tx (Nat → Client) Nat Failure α

/-- Sends the next request. -/
def request {α : Type} (ask : Client → Except Failure α) : Reading α :=
  fun server n => (ask (server n)).map fun answer => (answer, n + 1)

/-! ## The decoders -/

structure StoredReserveObservation where
  observationId : Int
  observedSum : Int
  observedLedger : Int
  reserveSetHash : Int
  attestationId : Option Int
  belowAttested : Bool
deriving DecidableEq

structure ObservationStatus where
  observationCount : Int
  firstLowObservation : Option Int
deriving DecidableEq

def requireStoredId (value : NativeValue) (name : String) : Except Failure Int := do
  let id ← requireBigint value name
  if id < 1 ∨ id > MAX_U64 then infrastructure s!"{name} is outside the positive u64 range"
  else return id

def requireOptionalId (source : NativeValue) (key method : String) :
    Except Failure (Option Int) :=
  match source with
  | .record fields =>
    match fields.find? fun field => field.1 = Text.ofString key with
    | none => infrastructure s!"the record of the call {method} carries no {key}"
    | some (_, .null) => .ok none
    | some (_, value) => some <$> requireStoredId value key
  | _ => infrastructure s!"the record of the call {method} carries no {key}"

def requireBoolean (value : NativeValue) (message : String) : Except Failure Bool :=
  match value with
  | .boolean value => .ok value
  | _ => infrastructure message

/-- Decodes a stored observation. -/
def decodeStoredObservation (returned : NativeValue) :
    Except Failure StoredReserveObservation := do
  let method := "get_observation"
  let flag ← mapField returned "below_attested" method
  let belowAttested ← requireBoolean flag "the below-attested flag is not a boolean"
  let attestationId ← requireOptionalId returned "attestation_id" method
  if belowAttested = true ∧ attestationId = none then
    infrastructure "a low observation names no baseline attestation"
  else
    let id ← mapField returned "observation_id" method
    let observationId ← requireStoredId id "the observation identifier"
    let sum ← mapField returned "observed_sum" method
    let observedSum ← requireBigint sum "the observed sum"
    let ledger ← mapField returned "observed_ledger" method
    let observedLedger ← requireNumber ledger "the observed ledger"
    let hash ← mapField returned "reserve_set_hash" method
    let reserveSetHash ← requireBigint hash "the reserve set hash"
    return { observationId, observedSum, observedLedger, reserveSetHash, attestationId,
             belowAttested }

/-- Decodes the observation count and the permanent first low marker. -/
def decodeObservationStatus (returned : NativeValue) : Except Failure ObservationStatus := do
  let count ← mapField returned "observation_count" "observation_status"
  let observationCount ← requireBigint count "the observation count"
  if observationCount < 0 ∨ observationCount > MAX_U64 then
    infrastructure "the observation count is outside the u64 range"
  else
    let firstLowObservation ←
      requireOptionalId returned "first_low_observation" "observation_status"
    if firstLowObservation.any fun first => first > observationCount then
      infrastructure "the first low observation exceeds the observation count"
    else return { observationCount, firstLowObservation }

/-! ## The readers -/

/-- An identifier of a record. -/
def requireId (message : String) (id : Int) : Except Failure Nat :=
  if id < 1 ∨ id > MAX_U64 then .error (.other (Text.ofString message)) else .ok id.toNat

def requireAttestationId : Int → Except Failure Nat :=
  requireId "the attestation identifier must be a positive u64"

def requireObservationId : Int → Except Failure Nat :=
  requireId "the observation identifier must be a positive u64"

def requireHistoryCount (count : Double) : Except Failure Nat :=
  let refused := .error
    (.other (Text.ofString s!"the history count must be between 1 and {HISTORY_PAGE_LIMIT}"))
  match count.toInt? with
  | some n => if n < 1 ∨ n > HISTORY_PAGE_LIMIT then refused else .ok n.toNat
  | none => refused

/-- Reads the status of the observations. -/
def readObservationStatus (client : Client) (registry asset : Text) :
    Except Failure (Option ObservationStatus) :=
  undefinedFor [ASSET_NOT_REGISTERED] do
    let address ← client.address asset
    let returned ← simulateRead client registry (.observationStatus address)
    decodeObservationStatus returned

/-- Reads a fixed observation.  Only the explicit not-found errors mean absence. -/
def readStoredObservation (client : Client) (registry asset : Text) (id : Nat) :
    Except Failure (Option StoredReserveObservation) := do
  let _ ← requireObservationId id
  let returned ← undefinedFor [ASSET_NOT_REGISTERED, OBSERVATION_NOT_FOUND] do
    let address ← client.address asset
    simulateRead client registry (.getObservation address (BitVec.ofNat 64 id))
  match returned with
  | none => return none
  | some value =>
    let record ← decodeStoredObservation value
    if record.observationId ≠ id then
      infrastructure s!"the observation returned a different identifier from {id}"
    else return some record

structure StoredHistoryOptions where
  startId : Int
  count : Double

/-- One page of a history: the count, and one request for each record. -/
def readHistory {α : Type} (requireId : Int → Except Failure Nat)
    (readCount : Client → Except Failure Nat)
    (read : Client → Nat → Except Failure (Option α)) (missing : Nat → String)
    (options : StoredHistoryOptions) : Reading (Page α) := do
  let startId ← Tx.lift id (requireId options.startId)
  let count ← Tx.lift id (requireHistoryCount options.count)
  readPage (request readCount) (fun id => request fun client => read client id)
    (fun id => .infrastructure (Text.ofString (missing id))) startId count

/-- The count of the attestations. -/
def attestationTotal (registry asset : Text) (client : Client) : Except Failure Nat := do
  let address ← client.address asset
  let returned ← simulateRead client registry (.attestationCount address)
  let totalCount ← requireBigint returned "the attestation count"
  if totalCount < 0 ∨ totalCount > MAX_U64 then
    infrastructure "the attestation count is outside the u64 range"
  else return totalCount.toNat

/-- The count of the observations, of a registered asset. -/
def observationTotal (registry asset : Text) (client : Client) : Except Failure Nat := do
  let status ← readObservationStatus client registry asset
  match status with
  | none => .error (.refused ASSET_NOT_REGISTERED)
  | some status => return status.observationCount.toNat

/-- The text of the error that names a missing record. -/
def missingRecord (kind : String) (id : Nat) : String :=
  s!"the {kind} count includes the missing record {id}"

/-- Reads a bounded range of the attestations. -/
def readStoredAttestationHistory (registry asset : Text) :
    StoredHistoryOptions → Reading (Page StoredAttestation) :=
  readHistory requireAttestationId (attestationTotal registry asset)
    (fun client id => readStoredAttestation client registry asset id)
    (missingRecord "attestation")

/-- Reads a bounded range of the observations. -/
def readStoredObservationHistory (registry asset : Text) :
    StoredHistoryOptions → Reading (Page StoredReserveObservation) :=
  readHistory requireObservationId (observationTotal registry asset)
    (fun client id => readStoredObservation client registry asset id)
    (missingRecord "observation")

end ZkPoR.Sdk
