import ZkPoR.RegistryReads
import ZkPoR.RegistrySimulation
import ZkPoR.Stringify

/-! # The endpoint that serves a run of the registry

What an endpoint answers that simulates the reads of a client against the registry: each
request meets the state of its own instant, so the chain can grow between any two of them.
The value of a call reaches the client as the host returns it, and a contract error reaches
it inside the text of the failed simulation (`Reports`).  A request can also stay without an
answer from the registry (`Silent`).

`Serves.read_of_ok` and `Serves.read_of_error` say what the client then holds.
-/
namespace ZkPoR.Sdk
open CheckedInt JsonText JavaScript Binary64 Transaction TransitionSystem

/-! ## The values of the registry as the host returns them -/

def nativeCount (count : U64) : NativeValue := .bigint count.toNat

def nativeAttestation (attestation : Attestation) : NativeValue :=
  .record [(Text.ofString "attested_ledger", .number (ofNat attestation.attestedLedger.toNat)),
    (Text.ofString "context_hash", .bigint attestation.contextHash.toNat),
    (Text.ofString "final_root", .bigint attestation.finalRoot.toNat),
    (Text.ofString "reserve_sum", .bigint attestation.reserveSum.val),
    (Text.ofString "snapshot_ledger", .number (ofNat attestation.snapshotLedger.toNat)),
    (Text.ofString "total_liabilities", .bigint attestation.totalLiabilities.toNat)]

def nativeOptionalId : Option U64 → NativeValue
  | none => .null
  | some id => .bigint id.toNat

def nativeObservation (observation : ReserveObservation) : NativeValue :=
  .record [(Text.ofString "attestation_id", nativeOptionalId observation.attestationId),
    (Text.ofString "below_attested", .boolean observation.belowAttested),
    (Text.ofString "observation_id", .bigint observation.observationId.toNat),
    (Text.ofString "observed_ledger", .number (ofNat observation.observedLedger.toNat)),
    (Text.ofString "observed_sum", .bigint observation.observedSum.val),
    (Text.ofString "reserve_set_hash", .bigint observation.reserveSetHash.toNat)]

def nativeStatus (status : ObservationStatus) : NativeValue :=
  .record [(Text.ofString "first_low_observation", nativeOptionalId status.firstLowObservation),
    (Text.ofString "observation_count", .bigint status.observationCount.toNat)]

def statusName : DisputeStatus → Text
  | .open => Text.ofString "Open"
  | .answered => Text.ofString "Answered"
  | .omissionProven => Text.ofString "OmissionProven"

def nativeOrigin : DisputeOrigin → NativeValue
  | .inclusion attestationId =>
    .list [.string (Text.ofString "Inclusion"), .bigint attestationId.toNat]
  | .email keyId => .list [.string (Text.ofString "Email"), .bigint keyId.toNat]

section
variable (strkey : Address → Text)

/-- A dispute as the host returns it, its fields in the order of their names. -/
def nativeDispute (d : Dispute) : NativeValue :=
  .record [(Text.ofString "burned_bond", .bigint d.burnedBond.val),
    (Text.ofString "closed_ledger", .number (ofNat d.closedLedger.toNat)),
    (Text.ofString "deadline", .number (ofNat d.deadline.toNat)),
    (Text.ofString "disputer", .string (strkey d.disputer)),
    (Text.ofString "identifier", .bigint d.identifier.toNat),
    (Text.ofString "opened_ledger", .number (ofNat d.openedLedger.toNat)),
    (Text.ofString "origin", nativeOrigin d.origin),
    (Text.ofString "status", .list [.string (statusName d.status)]),
    (Text.ofString "target_id", .bigint d.targetId.toNat)]

variable {H : Host}

/-- The call that a read makes. -/
def Read.call : Read → Contract H NativeValue
  | attestationCount asset => nativeCount <$> ZkPoR.attestationCount asset
  | getAttestation asset id => nativeAttestation <$> ZkPoR.getAttestation asset id
  | observationStatus asset => nativeStatus <$> ZkPoR.observationStatus asset
  | getObservation asset id => nativeObservation <$> ZkPoR.getObservation asset id
  | getDispute asset targetId identifier =>
    nativeDispute strkey <$> ZkPoR.getDispute asset targetId identifier

end

/-! ## Answers -/

/-- How an endpoint reports what a call did.  The text of a refused one starts with the
contract error. -/
inductive Reports : Except Fault (NativeValue × State) → SimulateTransactionResponse → Prop
  | returned (value : NativeValue) (s : State) : Reports (.ok (value, s)) (.success (some value))
  | refused (reason : Error) (log : Text) :
    Reports (.error (.error reason)) (.error (hostError reason.code ++ log))
  | failed {fault : Fault} (h : ∀ reason, fault ≠ .error reason) (text : Text) :
    Reports (.error fault) (.error text)

/-- An answer that says nothing of the registry. -/
inductive Silent : Option SimulateTransactionResponse → Prop
  | unreachable : Silent none
  | failed {text : Text} (h : registryErrorCode text = none) : Silent (some (.error text))
  | noValue : Silent (some (.success none))

/-- The texts of a request that got no answer from the registry. -/
inductive Unanswered (method : String) : Text → Prop
  | unreachable :
    Unanswered method (Text.ofString s!"the client cannot simulate the call {method}")
  | failed (error : Text) :
    Unanswered method (Text.ofString s!"the simulation of the call {method} failed: " ++ error)
  | noValue : Unanswered method (Text.ofString s!"the call {method} returned no value")

section
variable {H : Host}

/-- An answer to one request: from the registry in one state, or none where the
request did not reach it. -/
inductive Answers (reached : Prop) (s : State) (call : Contract H NativeValue) :
    Option SimulateTransactionResponse → Prop
  | contract (invocation : Invocation H) {response : SimulateTransactionResponse}
      (h : Reports (call invocation s) response) : Answers reached s call (some response)
  | unanswered (hreached : ¬ reached) {answer : Option SimulateTransactionResponse}
      (h : Silent answer) : Answers reached s call answer

/-- **An endpoint that serves a run of the registry.**  The n-th request meets the state
of the instant `clock n`, and anything can happen between two requests. -/
structure Serves (run : RegistryRun H) (clock : Nat → Nat) (reached : Nat → Prop)
    (strkey : Address → Text) (registry asset : Text) (address : Address)
    (server : Nat → Client) : Prop where
  monotone : Monotone clock
  parses : ∀ n, (server n).address asset = .ok address
  simulates : ∀ n, ∃ contract, (server n).contract registry = .ok contract ∧
    ∀ read : Read, Answers (reached n) (run.state (clock n))
      (read.call strkey : Contract H NativeValue)
      ((server n).simulateTransaction contract read)

/-- The client got no answer to a read. -/
def Failed (reached : Prop) (method : String) (actual : Except Failure NativeValue) : Prop :=
  ¬ reached ∧ ∃ message, Unanswered method message ∧ actual = .error (.infrastructure message)

theorem Silent.valueOf {answer : Option SimulateTransactionResponse} (h : Silent answer)
    (method : String) :
    ∃ message, Unanswered method message ∧
      Sdk.valueOf method answer = .error (.infrastructure message) := by
  cases h with
  | unreachable => exact ⟨_, .unreachable, rfl⟩
  | failed hnone => exact ⟨_, .failed _, by rw [Sdk.valueOf, hnone]⟩
  | noValue => exact ⟨_, .noValue, rfl⟩

variable {run : RegistryRun H} {clock : Nat → Nat} {reached : Nat → Prop}
  {strkey : Address → Text} {registry asset : Text} {address : Address} {server : Nat → Client}
  {n : Nat}

/-- The client makes of a read what it makes of the answer to it. -/
theorem Serves.exists_answer (h : Serves run clock reached strkey registry asset address server)
    (n : Nat) (read : Read) : ∃ answer,
      Answers (reached n) (run.state (clock n)) (read.call strkey : Contract H NativeValue) answer ∧
        simulateRead (server n) registry read = valueOf read.method answer := by
  obtain ⟨contract, hcontract, hanswers⟩ := h.simulates n
  refine ⟨_, hanswers read, ?_⟩
  rw [simulateRead, hcontract]
  rfl

variable {α : Type} {call : Contract H α} {native : α → NativeValue}

/-- What every caller is answered is the value of the read. -/
theorem Serves.read_of_ok (h : Serves run clock reached strkey registry asset address server)
    (read : Read) (hread : read.call strkey = native <$> call) {a : α}
    (hcall : ∀ invocation, call invocation (run.state (clock n)) = .ok (a, run.state (clock n))) :
    simulateRead (server n) registry read = .ok (native a) ∨
      Failed (reached n) read.method (simulateRead (server n) registry read) := by
  obtain ⟨answer, hanswer, hvalue⟩ := h.exists_answer n read
  rw [hvalue]
  cases hanswer with
  | contract invocation hreports =>
    rw [hread, Tx.map_eq, hcall] at hreports
    cases hreports
    exact .inl rfl
  | unanswered hreached hsilent => exact .inr ⟨hreached, hsilent.valueOf read.method⟩

/-- A refusal that every caller gets is the refusal of the read, under its code. -/
theorem Serves.read_of_error (h : Serves run clock reached strkey registry asset address server)
    (read : Read) (hread : read.call strkey = native <$> call) {reason : Error}
    (hcall : ∀ invocation, call invocation (run.state (clock n)) = .error (.error reason)) :
    simulateRead (server n) registry read = .error (.refused reason.code) ∨
      Failed (reached n) read.method (simulateRead (server n) registry read) := by
  obtain ⟨answer, hanswer, hvalue⟩ := h.exists_answer n read
  rw [hvalue]
  cases hanswer with
  | contract invocation hreports =>
    rw [hread, Tx.map_eq, hcall] at hreports
    cases hreports with
    | refused _ log => exact .inl (valueOf_hostError _ _ log)
    | failed hfault => exact absurd rfl (hfault reason)
  | unanswered hreached hsilent => exact .inr ⟨hreached, hsilent.valueOf read.method⟩

end

/-! ## An endpoint of the sample run -/

/-- The answer of an endpoint that simulates the call itself. -/
def respond {H : Host} (call : Contract H NativeValue) (invocation : Invocation H) (s : State) :
    SimulateTransactionResponse :=
  match call invocation s with
  | .ok (value, _) => .success (some value)
  | .error (.error reason) => .error (hostError reason.code)
  | .error _ => .error []

theorem reports_respond {H : Host} (call : Contract H NativeValue) (invocation : Invocation H)
    (s : State) : Reports (call invocation s) (respond call invocation s) := by
  unfold respond
  split
  · rename_i value s' hcall
    exact hcall ▸ .returned value s'
  · rename_i reason hcall
    have hrefused := Reports.refused reason []
    rw [List.append_nil] at hrefused
    exact hcall ▸ hrefused
  · rename_i fault hfault hcall
    exact hcall ▸ .failed hfault []

/-- An endpoint that simulates every read in the state of the sample run at one instant. -/
def sampleEndpoint (clock : Nat → Nat) (n : Nat) : Client where
  address _ := .ok (sampleContract 3)
  contract _ := .ok (sampleContract 1)
  simulateTransaction _ read := some (respond (read.call fun _ => Text.ofString "G")
    sampleInvocation ((sampleRun sampleCalls).state (clock n)))
  health := .ok 100

theorem serves_sampleEndpoint {clock : Nat → Nat} (h : Monotone clock) (registry asset : Text) :
    Serves (sampleRun sampleCalls) clock (fun _ => True) (fun _ => Text.ofString "G") registry
      asset (sampleContract 3) (sampleEndpoint clock) where
  monotone := h
  parses _ := rfl
  simulates _ := ⟨_, rfl, fun _ => .contract sampleInvocation (reports_respond _ _ _)⟩

end ZkPoR.Sdk
