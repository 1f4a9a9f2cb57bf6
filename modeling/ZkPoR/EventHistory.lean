import ZkPoR.StoredHistory
import Mathlib.Data.Prod.Lex
import Mathlib.Order.Basic

/-! # The event history of the SDK

`readAttestationHistory` reads the attestation events of one asset from an endpoint
that answers a part of them at a time, with a cursor where it stopped.  The reader
follows the cursors, and stops when the ledger of a cursor is the latest one.

The endpoint is the parameter `EventClient`, and `ServesEvents` says what it answers: the
events between the place that a request names and the place of its cursor.
-/
namespace ZkPoR.Sdk
open CheckedInt BoundedLoop JsonText Binary64 Transaction

/-- The topic symbol of every attestation event. -/
def ATTESTATION_EVENT_TOPIC : String := "attestation_accepted"

/-! ## Cursors -/

/-- The place of an event: its identifier, and a field number. -/
abbrev Place := ℕ ×ₗ ℕ

/-- The identifier holds the ledger sequence in its high 32 bits. -/
def Place.ledger (place : Place) : Nat := (ofLex place).1 >>> 32

/-- The identifier of a cursor: its text up to the first dash. -/
def identifierText (cursor : String) : List Char := cursor.toList.takeWhile (· ≠ '-')

/-- The ledger that one event cursor names, or nothing for a cursor that this function
cannot read. -/
def ledgerOfEventCursor (cursor : String) : Option Nat :=
  if identifierText cursor ≠ [] ∧ (identifierText cursor).all Char.isDigit then
    some (Nat.ofDigitChars 10 (identifierText cursor) 0 >>> 32)
  else none

/-- The place that a cursor names to the endpoint. -/
def placeOf (cursor : String) : Place :=
  toLex (Nat.ofDigitChars 10 (identifierText cursor) 0,
    Nat.ofDigitChars 10 ((cursor.toList.dropWhile (· ≠ '-')).drop 1) 0)

/-! ## The endpoint -/

/-- An event, with its decoded topics and its decoded data. -/
structure RpcEvent where
  place : Place
  topic : List NativeValue
  value : NativeValue
  ledger : Nat
  txHash : Text

/-- Where the answer to a request starts. -/
inductive Origin
  | startLedger (ledger : Nat)
  | cursor (cursor : String)

/-- A request for the events of one registry and one asset. -/
structure EventRequest where
  origin : Origin
  registry : Text
  asset : Address
  limit : Nat

/-- One answer of the endpoint. -/
structure EventsPage where
  events : List RpcEvent
  cursor : String
  oldestLedger : Nat
  latestLedger : Nat

structure RetainedLedgers where
  oldestLedger : Nat
  latestLedger : Nat

/-- What the reader asks of the Stellar library, and the text of a value in an error.
The n-th request has an answer of its own, or none. -/
structure EventClient where
  address : Text → Except Failure Address
  health : Option RetainedLedgers
  getEvents : Nat → EventRequest → Option EventsPage
  display : Option NativeValue → Text

/-- The retained ledger window of the endpoint. -/
def retainedLedgers (client : EventClient) : Except Failure RetainedLedgers :=
  match client.health with
  | some retained => .ok retained
  | none => infrastructure "the client cannot read the retained ledger window"

/-! ## The decoder -/

/-- What an attestation event says. -/
structure DecodedAttestation where
  finalRoot : Int
  totalLiabilities : Int
  snapshotLedger : Int
  reserveSum : Int
  attestedLedger : Int
  attestationId : Option Int
deriving DecidableEq

/-- One attestation that the event stream records. -/
structure AttestationEvent extends DecodedAttestation where
  ledger : Nat
  transactionHash : Text
deriving DecidableEq

/-- Reads one attestation out of the value that the host returned. -/
def decodeAttestation (payload : NativeValue) (source : String) (attestationId : Option Int) :
    Except Failure DecodedAttestation := do
  let root ← mapField payload "final_root" source
  let finalRoot ← requireBigint root "the attested root"
  let total ← mapField payload "total_liabilities" source
  let totalLiabilities ← requireBigint total "the total liabilities"
  let snapshot ← mapField payload "snapshot_ledger" source
  let snapshotLedger ← requireNumber snapshot "the snapshot ledger"
  let sum ← mapField payload "reserve_sum" source
  let reserveSum ← requireBigint sum "the reserve sum"
  let attested ← mapField payload "attested_ledger" source
  let attestedLedger ← requireNumber attested "the attested ledger"
  return { finalRoot, totalLiabilities, snapshotLedger, reserveSum, attestedLedger, attestationId }

/-- The value of a key that a record may lack. -/
def keyOf (data : NativeValue) (key : String) : Option NativeValue :=
  match data with
  | .record fields => (fields.find? fun field => field.1 = Text.ofString key).map Prod.snd
  | _ => none

/-- Reads one attestation event out of its decoded topics and its decoded data. -/
def decodeAttestationEvent (display : Option NativeValue → Text) (topics : List NativeValue)
    (data : NativeValue) : Except Failure (Text × DecodedAttestation) :=
  let name : Option NativeValue := topics[0]?
  let asset : Option NativeValue := topics[1]?
  let topic : Option Text := match name with
    | some (.string text) => some text
    | _ => none
  if topic ≠ some (Text.ofString ATTESTATION_EVENT_TOPIC) then
    .error (.infrastructure (Text.ofString "the event names the topic " ++ display name ++
      Text.ofString s!", and this client reads {ATTESTATION_EVENT_TOPIC}"))
  else
    match asset with
    | some (.string asset) =>
      match keyOf data "attestation_id" with
      | some value => do
        let id ← requireBigint value "the attestation identifier"
        let _ ← requireAttestationId id
        let attestation ← decodeAttestation data ATTESTATION_EVENT_TOPIC (some id)
        return (asset, attestation)
      | none => do
        let attestation ← decodeAttestation data ATTESTATION_EVENT_TOPIC none
        return (asset, attestation)
    | _ => infrastructure "the event carries no asset address as its second topic"

/-! ## The reader -/

/-- The result of a history query. -/
structure AttestationHistory where
  attestations : List AttestationEvent
  /-- The oldest ledger that this query covered. -/
  oldestLedgerCovered : Nat
  /-- The oldest ledger that the endpoint still retains. -/
  oldestLedgerRetained : Nat
  /-- The latest ledger of the network at the time of the query. -/
  latestLedger : Nat
  /-- True when the query started at the oldest retained ledger of the endpoint. -/
  reachesTheRetentionLimit : Bool
  /-- True when the query read every ledger from the start of the range to the latest
  ledger. -/
  coversTheWholeRange : Bool

/-- A reading of events.  The count is that of the requests so far. -/
abbrev EventReading (α : Type) : Type := Tx EventClient Nat Failure α

def getEvents (request : EventRequest) : EventReading EventsPage := fun client n =>
  match client.getEvents n request with
  | some page => .ok (page, n + 1)
  | none => infrastructure "the client cannot read the attestation events"

/-- The attestations of one asset among the events of a page. -/
def attestationsOf (display : Option NativeValue → Text) (asset : Text) :
    List RpcEvent → Except Failure (List AttestationEvent)
  | [] => .ok []
  | event :: events => do
    let decoded ← decodeAttestationEvent display event.topic event.value
    let rest ← attestationsOf display asset events
    if decoded.1 ≠ asset then return rest
    else return { decoded.2 with ledger := event.ledger, transactionHash := event.txHash } :: rest

/-- The state of the loop when it ends: what it found, the last page, and whether the
cursor of that page reached the latest ledger. -/
structure Stopped where
  attestations : List AttestationEvent
  page : EventsPage
  coversTheWholeRange : Bool

/-- The loop over the pages.  Without fuel it goes on, and has no result. -/
def followCursors (asset : Text) (request : EventRequest) :
    Nat → List AttestationEvent → Origin → EventReading (Option Stopped)
  | 0, _, _ => return none
  | fuel + 1, attestations, origin => do
    let page ← getEvents { request with origin }
    let display ← Tx.reads fun client _ => client.display
    let found ← Tx.lift id (attestationsOf display asset page.events)
    let attestations := attestations ++ found
    match ledgerOfEventCursor page.cursor with
    | none => return some { attestations, page, coversTheWholeRange := false }
    | some reached =>
      if reached ≥ page.latestLedger then
        return some { attestations, page, coversTheWholeRange := true }
      else
        match origin with
        | .cursor cursor =>
          if page.cursor = cursor then
            return some { attestations, page, coversTheWholeRange := false }
          else followCursors asset request fuel attestations (.cursor page.cursor)
        | .startLedger _ => followCursors asset request fuel attestations (.cursor page.cursor)

/-- Reads the attestation history of one asset from the event stream. -/
def readAttestationHistory (fuel : Nat) (registry asset : Text) (fromLedger : Option Nat) :
    EventReading (Option AttestationHistory) := do
  let health ← Tx.reads fun client _ => retainedLedgers client
  let retained ← Tx.lift id health
  let startLedger := match fromLedger with
    | none => retained.oldestLedger
    | some ledger => max ledger retained.oldestLedger
  let parsed ← Tx.reads fun client _ => client.address asset
  let address ← Tx.lift id parsed
  let stopped ← followCursors asset
    { origin := .startLedger startLedger, registry, asset := address, limit := HISTORY_PAGE_LIMIT }
    fuel [] (.startLedger startLedger)
  return stopped.map fun stopped =>
    { attestations := stopped.attestations.mergeSort fun left right => left.ledger ≤ right.ledger
      oldestLedgerCovered := startLedger
      oldestLedgerRetained := stopped.page.oldestLedger
      latestLedger := stopped.page.latestLedger
      reachesTheRetentionLimit := startLedger ≤ stopped.page.oldestLedger
      coversTheWholeRange := stopped.coversTheWholeRange }

/-! ## What the endpoint promises -/

/-- The answer to a request can hold an event at this place. -/
def Origin.before (place : Place) : Origin → Bool
  | .startLedger ledger => ledger ≤ place.ledger
  | .cursor text => placeOf text < place

/-- The place lies in the range of the request, or at its start. -/
def Origin.reaches (place : Place) : Origin → Prop
  | .startLedger ledger => ledger ≤ place.ledger
  | .cursor text => placeOf text ≤ place

/-- The attestation events of an asset, in the order of their places. -/
structure MatchingEvents (asset : Text) (events : List RpcEvent) : Prop where
  sorted : events.Pairwise fun a b => a.place < b.place
  topic : ∀ event ∈ events,
    event.topic = [.string (Text.ofString ATTESTATION_EVENT_TOPIC), .string asset]
  ledger : ∀ event ∈ events, event.ledger = event.place.ledger

/-- **The answers of an event endpoint.**  The cursor of an answer is the place where it
stopped: the answer holds the matching events up to there, and none is skipped. -/
structure ServesEvents (registry : Text) (address : Address) (events : List RpcEvent)
    (client : EventClient) : Prop where
  limited : ∀ {n request page}, client.getEvents n request = some page →
    page.events.length ≤ request.limit
  answers : ∀ {n request page}, request.registry = registry → request.asset = address →
    client.getEvents n request = some page → ledgerOfEventCursor page.cursor ≠ none →
      request.origin.reaches (placeOf page.cursor) ∧
      page.events = events.filter fun event =>
        request.origin.before event.place && decide (event.place ≤ placeOf page.cursor)

/-- The requests of a reader that follows the cursors. -/
def requestAt (client : EventClient) (request : EventRequest) : Nat → EventRequest
  | 0 => request
  | n + 1 =>
    match client.getEvents n (requestAt client request n) with
    | some page => { request with origin := .cursor page.cursor }
    | none => requestAt client request n

/-- The answers to a reader that follows the cursors. -/
def answerAt (client : EventClient) (request : EventRequest) (n : Nat) : Option EventsPage :=
  client.getEvents n (requestAt client request n)

/-- The cursor names the latest ledger, and leaves an event of that ledger behind it. -/
def StopsInside (events : List RpcEvent) (startLedger : Nat) (page : EventsPage) : Prop :=
  ledgerOfEventCursor page.cursor = some page.latestLedger ∧
    ∃ event ∈ events, startLedger ≤ event.ledger ∧ event.ledger = page.latestLedger ∧
      placeOf page.cursor < event.place

/-- The record of one event. -/
def RecordOf (display : Option NativeValue → Text) (asset : Text) (event : RpcEvent)
    (attestation : AttestationEvent) : Prop :=
  ∃ decoded, decodeAttestationEvent display event.topic event.value = .ok (asset, decoded) ∧
    attestation = { decoded with ledger := event.ledger, transactionHash := event.txHash }

/-- The ledger lies in a range, both ends included. -/
def inLedgers (startLedger latestLedger ledger : Nat) : Bool :=
  startLedger ≤ ledger && ledger ≤ latestLedger

/-- **The history holds every event of its range exactly once, in ledger order.** -/
structure CoversRange (display : Option NativeValue → Text) (asset : Text)
    (events : List RpcEvent) (history : AttestationHistory) : Prop where
  inOrder : history.attestations.Pairwise fun left right => left.ledger ≤ right.ledger
  complete : List.Forall₂ (RecordOf display asset)
    (events.filter fun event =>
      inLedgers history.oldestLedgerCovered history.latestLedger event.ledger)
    (history.attestations.filter fun attestation =>
      inLedgers history.oldestLedgerCovered history.latestLedger attestation.ledger)

end ZkPoR.Sdk
