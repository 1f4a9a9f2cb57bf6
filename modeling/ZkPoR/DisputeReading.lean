import ZkPoR.DisputeSettlement
import ZkPoR.Inclusion
import ZkPoR.SdkDisputeCalls
import ZkPoR.StoredHistoryPages

/-! # The stored disputes of the SDK

`readStoredDispute` asks the registry for one dispute and refuses what a dispute cannot
be: a target or an origin of number zero, the padding identifier, a burned bond below
zero.  The registry never stores any of these (`RegistryRun.dispute_wellFormed`), so every
answer of the registry comes back as the record that it stores.
-/
namespace ZkPoR
open ByteString CheckedInt TypedStore Transaction TransitionSystem
open Contract

/-! ## What the registry stores -/

/-- The number that an origin carries. -/
def DisputeOrigin.number : DisputeOrigin → U64
  | .inclusion attestationId => attestationId
  | .email keyId => keyId

/-- What a stored dispute satisfies. -/
structure Dispute.WellFormed (d : Dispute) (targetId : U64) (identifier : U256) : Prop where
  target : d.targetId = targetId
  subject : d.identifier = identifier
  target_pos : 1 ≤ targetId.toNat
  identifier_ne : identifier ≠ 0
  inRange : frInRange identifier
  origin_pos : 1 ≤ d.origin.number.toNat
  burned : 0 ≤ d.burnedBond.val

section
variable {H : Host}

variable {invocation : Invocation H} {op : Op} {s s' : State} {asset : Address} {targetId : U64}
  {identifier : U256}

/-- The numbers of a state start at one. -/
structure Numbered (s : State) (asset : Address) : Prop where
  attestations : ∀ id a, s.get (.attestation asset id) = some a → 1 ≤ id.toNat
  dkimKeys : ∀ id record, s.get (.dkimKey asset id) = some record → 1 ≤ id.toNat

/-- The evidence of a new dispute is about a nonzero field element, and names a record. -/
theorem Proves.origin {evidence : DisputeEvidence} (hnumbered : Numbered s asset)
    (h : Proves invocation s asset targetId evidence) :
    evidence.identifier ≠ 0 ∧ frInRange evidence.identifier ∧
      1 ≤ evidence.origin.number.toNat := by
  cases evidence with
  | inclusion opening =>
    obtain ⟨-, old, hold, hincluded⟩ := h
    obtain ⟨-, -, hne, hrange, -⟩ := inclusion_eq_ok.mp hincluded
    exact ⟨hne, hrange, hnumbered.attestations _ _ hold⟩
  | email evidence =>
    obtain ⟨hne, hrange, record, hrecord, -⟩ := h
    exact ⟨hne, hrange, hnumbered.dkimKeys _ _ hrecord⟩

/-- A call keeps the stored disputes well-formed. -/
theorem Dispute.WellFormed.step (h : Effect invocation s op s') (hnumbered : Numbered s asset)
    (hbond : 0 ≤ (s.bond asset).available.val)
    (hi : ∀ d, s.get (.dispute asset targetId identifier) = some d →
      d.WellFormed targetId identifier) {d : Dispute}
    (hd : s'.get (.dispute asset targetId identifier) = some d) :
    d.WellFormed targetId identifier := by
  rcases h.get_eq_or_writes (.dispute asset targetId identifier) with heq | hwrites
  · exact hi d (heq ▸ hd)
  · cases h with
    | openDispute _ recorded _ _ proven =>
      simp only [Op.writes, DataKey.dispute.injEq] at hwrites
      obtain ⟨rfl, rfl, rfl⟩ := hwrites
      rw [State.get_move, State.get_save_self] at hd
      obtain rfl := Option.some.inj hd
      obtain ⟨hne, hrange, horigin⟩ := proven.origin hnumbered
      exact ⟨rfl, rfl, hnumbered.attestations _ _ recorded, hne, hrange, horigin, le_refl _⟩
    | answerDispute _ stored =>
      simp only [Op.writes, DataKey.dispute.injEq] at hwrites
      obtain ⟨rfl, rfl, rfl⟩ := hwrites
      rw [State.get_move, State.get_save_self] at hd
      obtain rfl := Option.some.inj hd
      have hold := hi _ stored
      exact ⟨hold.target, hold.subject, hold.target_pos, hold.identifier_ne, hold.inRange,
        hold.origin_pos, hold.burned⟩
    | resolveDispute stored =>
      simp only [Op.writes, reduceCtorEq, DataKey.dispute.injEq, false_or] at hwrites
      obtain ⟨rfl, rfl, rfl⟩ := hwrites
      rw [State.get_move, State.get_save_self] at hd
      obtain rfl := Option.some.inj hd
      have hold := hi _ stored
      exact ⟨hold.target, hold.subject, hold.target_pos, hold.identifier_ne, hold.inRange,
        hold.origin_pos, hbond⟩
    | _ => simp [Op.writes] at hwrites

end

namespace RegistryRun
variable {H : Host} (run : RegistryRun H) {asset : Address} {targetId : U64} {identifier : U256}

/-- The records and the signer keys of a run are numbered from one. -/
theorem numbered (asset : Address) (t : Nat) : Numbered (run.state t) asset where
  attestations id a ha := (((run.historyInvariant asset t).exists_iff id).mp (by rw [ha]; rfl)).1
  dkimKeys id record hrecord := by
    obtain ⟨u, -, -, -, invocation, op, hcall, hwrites⟩ := run.exists_write hrecord
    cases op with
    | registerDkimKey asset key =>
      simp only [Op.writes, reduceCtorEq, DataKey.dkimKey.injEq, false_or] at hwrites
      obtain ⟨id', hid, -, rfl⟩ := hwrites
      omega
    | _ => simp [Op.writes] at hwrites

/-- **Every stored dispute is well-formed**, in every reachable state. -/
theorem dispute_wellFormed (t : Nat) {d : Dispute}
    (h : (run.state t).get (.dispute asset targetId identifier) = some d) :
    d.WellFormed targetId identifier := by
  induction t generalizing d with
  | zero =>
    rw [show run.state 0 = run.first from rfl, run.first_start.get] at h
    cases h
  | succ t ih =>
    rcases run.step t with ⟨invocation, op, hcall⟩ | hquiet
    · exact Dispute.WellFormed.step hcall.effect (run.numbered asset t)
        (run.bondInvariant asset t).available (fun _ => ih) h
    · exact ih (hquiet.get _ ▸ h)

end RegistryRun
end ZkPoR

namespace ZkPoR.Sdk
open CheckedInt BoundedLoop JsonText JavaScript Binary64 Transaction TransitionSystem

/-! ## The decoder -/

inductive OriginKind
  | inclusion (attestationId : Nat)
  | email (keyId : Nat)
deriving DecidableEq

structure DisputeRecord where
  disputer : Text
  origin : OriginKind
  targetId : Nat
  identifier : Nat
  openedLedger : Nat
  deadline : Nat
  status : Text
  closedLedger : Nat
  burnedBond : Nat
deriving DecidableEq

def field (value : NativeValue) (key : String) : Except Failure NativeValue :=
  match value with
  | .record fields =>
    match fields.find? fun field => field.1 = Text.ofString key with
    | some (_, value) => .ok value
    | none => infrastructure s!"the dispute carries no {key}"
  | _ => infrastructure s!"the dispute carries no {key}"

def u64 (value : NativeValue) (name : String) : Except Failure Nat :=
  match value with
  | .bigint n =>
    if n < 0 ∨ n > MAX_U64 then infrastructure s!"{name} is not a u64" else .ok n.toNat
  | _ => infrastructure s!"{name} is not a u64"

def positiveRecordU64 (value : NativeValue) (name : String) : Except Failure Nat := do
  let parsed ← u64 value name
  if parsed = 0 then infrastructure s!"{name} is not positive" else return parsed

def u32 (value : NativeValue) (name : String) : Except Failure Nat :=
  match value with
  | .number number =>
    match number.toInt? with
    | some n =>
      if n < 0 ∨ n > MAX_U32 then infrastructure s!"{name} is not a u32" else .ok n.toNat
    | none => infrastructure s!"{name} is not a u32"
  | _ => infrastructure s!"{name} is not a u32"

/-- The origin variant of the current record, or the attestation of the historical one. -/
def originOf (record : NativeValue) : Except Failure OriginKind :=
  match record with
  | .record fields =>
    match fields.find? fun field => field.1 = Text.ofString "origin" with
    | none => do
      let value ← field record "evidence_id"
      OriginKind.inclusion <$> positiveRecordU64 value "the evidence ID"
    | some (_, .list [.string kind, value]) =>
      if kind = Text.ofString "Inclusion" then
        OriginKind.inclusion <$> positiveRecordU64 value "the evidence ID"
      else if kind = Text.ofString "Email" then
        OriginKind.email <$> positiveRecordU64 value "the email key ID"
      else infrastructure "the dispute origin is not supported"
    | some _ => infrastructure "the dispute origin is not a variant"
  | _ => infrastructure "the dispute is not a record"

/-- The three status names. -/
def STATUSES : List Text :=
  [Text.ofString "Open", Text.ofString "Answered", Text.ofString "OmissionProven"]

def statusOf (value : NativeValue) : Except Failure Text :=
  match value with
  | .list [.string status] =>
    if STATUSES.contains status then .ok status
    else infrastructure "the dispute status is not supported"
  | _ => infrastructure "the dispute status is not supported"

def identifierOf (value : NativeValue) : Except Failure Nat :=
  match value with
  | .bigint n =>
    if n = PADDING_LEAF_ID ∨ ¬ (0 ≤ n ∧ inRange n.toNat) then
      infrastructure "the dispute identifier is not a field element"
    else .ok n.toNat
  | _ => infrastructure "the dispute identifier is not a field element"

def burnedBondOf (value : NativeValue) : Except Failure Nat :=
  match value with
  | .bigint n =>
    if n < 0 then infrastructure "the burned bond is not an amount" else .ok n.toNat
  | _ => infrastructure "the burned bond is not an amount"

def disputerOf (value : NativeValue) : Except Failure Text :=
  match value with
  | .string text => .ok text
  | _ => infrastructure "the dispute disputer is not an address"

/-- Reads both the historical inclusion record and the current origin variant. -/
def decodeDispute (value : NativeValue) : Except Failure DisputeRecord := do
  let disputer ← field value "disputer"
  let status ← field value "status"
  let identifier ← field value "identifier"
  let burnedBond ← field value "burned_bond"
  let disputer ← disputerOf disputer
  let status ← statusOf status
  let identifier ← identifierOf identifier
  let burnedBond ← burnedBondOf burnedBond
  let origin ← originOf value
  let target ← field value "target_id"
  let targetId ← positiveRecordU64 target "the target ID"
  let opened ← field value "opened_ledger"
  let openedLedger ← u32 opened "the open ledger"
  let deadline ← field value "deadline"
  let deadline ← u32 deadline "the deadline"
  let closed ← field value "closed_ledger"
  let closedLedger ← u32 closed "the close ledger"
  return { disputer, origin, targetId, identifier, openedLedger, deadline, status, closedLedger,
           burnedBond }

/-! ## The reader -/

/-- A check of the caller's own values. -/
def ofInput {α : Type} (result : Except String α) : Except Failure α :=
  result.mapError fun message => .other (Text.ofString message)

/-- Returns absence only when the registry confirms that this dispute does not exist. -/
def readStoredDispute (client : Client) (registry asset : Text)
    (targetId identifier : Nat) : Except Failure (Option DisputeRecord) := do
  ofInput (positiveU64 targetId "the target ID")
  ofInput (validIdentifier identifier)
  let returned ← undefinedFor [DISPUTE_NOT_FOUND] do
    let address ← client.address asset
    simulateRead client registry
      (.getDispute address (BitVec.ofNat 64 targetId) (BitVec.ofNat 256 identifier))
  match returned with
  | none => return none
  | some value =>
    let dispute ← decodeDispute value
    if dispute.targetId ≠ targetId ∨ dispute.identifier ≠ identifier then
      infrastructure "the dispute does not match the requested target and identifier"
    else return some dispute

/-! ## The values of the registry -/

section Values
variable (strkey : Address → Text)

def storedOrigin : DisputeOrigin → OriginKind
  | .inclusion attestationId => .inclusion attestationId.toNat
  | .email keyId => .email keyId.toNat

/-- A stored dispute as the client holds it. -/
def storedDispute (d : Dispute) : DisputeRecord where
  disputer := strkey d.disputer
  origin := storedOrigin d.origin
  targetId := d.targetId.toNat
  identifier := d.identifier.toNat
  openedLedger := d.openedLedger.toNat
  deadline := d.deadline.toNat
  status := statusName d.status
  closedLedger := d.closedLedger.toNat
  burnedBond := d.burnedBond.val.toNat

theorem u32_native (n : U32) (name : String) :
    u32 (.number (ofNat n.toNat)) name = .ok n.toNat := by
  have hlt : n.toNat < 2 ^ 32 := n.isLt
  have hin : ¬ ((n.toNat : Int) < 0 ∨ (n.toNat : Int) > MAX_U32) := by
    have hmax : MAX_U32 = 2 ^ 32 - 1 := rfl
    omega
  rw [u32, ofNat, toDouble_natural (by omega)]
  dsimp only
  rw [if_neg hin, Int.toNat_natCast]

theorem positiveRecordU64_native {n : U64} (h : 1 ≤ n.toNat) (name : String) :
    positiveRecordU64 (.bigint n.toNat) name = .ok n.toNat := by
  have hle := toNat_le n
  have hin : ¬ ((n.toNat : Int) < 0 ∨ (n.toNat : Int) > MAX_U64) := by omega
  have hu64 : u64 (.bigint n.toNat) name = .ok n.toNat := by
    rw [u64, if_neg hin, Int.toNat_natCast]
  rw [positiveRecordU64, hu64]
  exact if_neg (by omega)

theorem originOf_native {d : Dispute} (h : 1 ≤ d.origin.number.toNat) :
    originOf (nativeDispute strkey d) = .ok (storedOrigin d.origin) := by
  cases horigin : d.origin with
  | inclusion attestationId =>
    rw [horigin] at h
    have hread := @positiveRecordU64_native attestationId h "the evidence ID"
    have hvariant : originOf (nativeDispute strkey d) = OriginKind.inclusion <$>
        positiveRecordU64 (.bigint attestationId.toNat) "the evidence ID" := by
      rw [nativeDispute, horigin]
      rfl
    rw [hvariant, hread]
    rfl
  | email keyId =>
    rw [horigin] at h
    have hread := @positiveRecordU64_native keyId h "the email key ID"
    have hvariant : originOf (nativeDispute strkey d) = OriginKind.email <$>
        positiveRecordU64 (.bigint keyId.toNat) "the email key ID" := by
      rw [nativeDispute, horigin]
      rfl
    rw [hvariant, hread]
    rfl

theorem statusOf_native (status : DisputeStatus) :
    statusOf (.list [.string (statusName status)]) = .ok (statusName status) := by
  have hcontains : STATUSES.contains (statusName status) = true := by
    cases status <;> simp [statusName, STATUSES]
  exact if_pos hcontains

/-- **A dispute comes back from the value that the host returns.** -/
theorem decodeDispute_native {d : Dispute} {targetId : U64} {identifier : U256}
    (h : d.WellFormed targetId identifier) :
    decodeDispute (nativeDispute strkey d) = .ok (storedDispute strkey d) := by
  have hid : identifierOf (.bigint d.identifier.toNat) = .ok d.identifier.toNat := by
    have hne : d.identifier.toNat ≠ 0 := by
      rw [h.subject]
      exact fun hzero => h.identifier_ne (BitVec.eq_of_toNat_eq hzero)
    have hrange : d.identifier.toNat < frModulus := h.subject ▸ h.inRange
    have hin : ¬ ((d.identifier.toNat : Int) = PADDING_LEAF_ID ∨
        ¬ (0 ≤ (d.identifier.toNat : Int) ∧ inRange (d.identifier.toNat : Int).toNat)) := by
      rw [Int.toNat_natCast, not_or, not_not]
      exact ⟨fun hzero => hne (by exact_mod_cast hzero), Int.natCast_nonneg _, hrange⟩
    rw [identifierOf, if_neg hin, Int.toNat_natCast]
  have hburned : burnedBondOf (.bigint d.burnedBond.val) = .ok d.burnedBond.val.toNat :=
    if_neg (Int.not_lt.mpr h.burned)
  have hstatus := statusOf_native d.status
  have horigin := originOf_native strkey h.origin_pos
  have htarget := positiveRecordU64_native (h.target ▸ h.target_pos) "the target ID"
  have hopened := u32_native d.openedLedger "the open ledger"
  have hdeadline := u32_native d.deadline "the deadline"
  have hclosed := u32_native d.closedLedger "the close ledger"
  -- the four fields that the decoder reads first, and their checks
  unfold decodeDispute
  refine bind_eq_ok.mpr ⟨_, rfl, bind_eq_ok.mpr ⟨_, rfl, bind_eq_ok.mpr ⟨_, rfl, ?_⟩⟩⟩
  refine bind_eq_ok.mpr ⟨_, rfl, bind_eq_ok.mpr ⟨strkey d.disputer, rfl, ?_⟩⟩
  refine bind_eq_ok.mpr ⟨_, hstatus, bind_eq_ok.mpr ⟨_, hid, bind_eq_ok.mpr ⟨_, hburned, ?_⟩⟩⟩
  refine bind_eq_ok.mpr ⟨_, horigin, ?_⟩
  -- each field of a number is read and then checked
  refine bind_eq_ok.mpr ⟨_, rfl, bind_eq_ok.mpr ⟨_, htarget, ?_⟩⟩
  refine bind_eq_ok.mpr ⟨_, rfl, bind_eq_ok.mpr ⟨_, hopened, ?_⟩⟩
  refine bind_eq_ok.mpr ⟨_, rfl, bind_eq_ok.mpr ⟨_, hdeadline, ?_⟩⟩
  exact bind_eq_ok.mpr ⟨_, rfl, bind_eq_ok.mpr ⟨_, hclosed, rfl⟩⟩

end Values

/-! ## The readings of a run -/

/-- A reading holds a value, unless its request did not reach the registry. -/
def Yields {α : Type} (reached : Prop) (value : α) (reading : Except Failure α) : Prop :=
  reading = .ok value ∨ ¬ reached ∧ ∃ message, reading = .error (.infrastructure message)

/-- Two records have the same terms. -/
structure DisputeRecord.SameTerms (r later : DisputeRecord) : Prop where
  disputer : later.disputer = r.disputer
  origin : later.origin = r.origin
  targetId : later.targetId = r.targetId
  identifier : later.identifier = r.identifier
  openedLedger : later.openedLedger = r.openedLedger
  deadline : later.deadline = r.deadline

section
variable {H : Host} {run : RegistryRun H} {clock : Nat → Nat} {reached : Nat → Prop}
  {strkey : Address → Text} {registry asset : Text} {address : Address} {client : Nat → Client}
  {targetId : U64} {identifier : U256}

/-- A reading that passes its checks is the simulation of `get_dispute`. -/
theorem readStoredDispute_eq (h : Serves run clock reached strkey registry asset address client)
    (hpos : 1 ≤ targetId.toNat) (hne : identifier ≠ 0) (hrange : frInRange identifier) (n : Nat) :
    readStoredDispute (client n) registry asset targetId.toNat identifier.toNat = (do
      let returned ← undefinedFor [DISPUTE_NOT_FOUND]
        (simulateRead (client n) registry (.getDispute address targetId identifier))
      match returned with
      | none => return none
      | some value =>
        let dispute ← decodeDispute value
        if dispute.targetId ≠ targetId.toNat ∨ dispute.identifier ≠ identifier.toNat then
          infrastructure "the dispute does not match the requested target and identifier"
        else return some dispute) := by
  have hid : validIdentifier identifier.toNat = .ok () := by
    refine check_eq_ok.mpr ?_
    rw [not_or, not_not]
    exact ⟨fun hzero => hne (BitVec.eq_of_toNat_eq hzero), hrange⟩
  unfold readStoredDispute
  rw [positiveU64_toNat hpos, hid, h.parses n, BitVec.ofNat_toNat, BitVec.ofNat_toNat,
    BitVec.setWidth_eq, BitVec.setWidth_eq]
  rfl

/-- One reading holds what the registry stores at its instant. -/
theorem Serves.readStoredDispute
    (h : Serves run clock reached strkey registry asset address client)
    (hpos : 1 ≤ targetId.toNat) (hne : identifier ≠ 0) (hrange : frInRange identifier) (n : Nat) :
    Yields (reached n)
      (((run.state (clock n)).get (.dispute address targetId identifier)).map
        (storedDispute strkey))
      (Sdk.readStoredDispute (client n) registry asset targetId.toNat identifier.toNat) := by
  rw [readStoredDispute_eq h hpos hne hrange n]
  cases hd : (run.state (clock n)).get (.dispute address targetId identifier) with
  | none =>
    rcases h.read_of_error (.getDispute address targetId identifier) rfl
      fun _ => getDispute_of_none hd with hrefused | ⟨hreached, message, -, hfailed⟩
    · rw [hrefused]
      exact .inl rfl
    · rw [hfailed]
      exact .inr ⟨hreached, message, rfl⟩
  | some d =>
    have hwf := run.dispute_wellFormed (clock n) hd
    have hsame : ¬ (d.targetId.toNat ≠ targetId.toNat ∨ d.identifier.toNat ≠ identifier.toNat) := by
      rw [hwf.target, hwf.subject]
      simp
    rcases h.read_of_ok (.getDispute address targetId identifier) rfl
      fun _ => getDispute_of_get hd with hstored | ⟨hreached, message, -, hfailed⟩
    · rw [hstored]
      exact .inl (bind_eq_ok.mpr ⟨some (nativeDispute strkey d), rfl,
        bind_eq_ok.mpr ⟨_, decodeDispute_native strkey hwf, if_neg hsame⟩⟩)
    · rw [hfailed]
      exact .inr ⟨hreached, message, rfl⟩

/-- **A client reads the stored disputes, and their terms stay.**  Against an endpoint that
serves a run of the registry, every reading of one target and one nonzero field element
answers the record that the registry stores at that instant, or absence exactly when it
stores none; a reading that does not reach the registry fails and is no absence.  Once a
client has read a dispute, every later reading finds it with the same terms, and a closed
one unchanged. -/
theorem stored_dispute_reads
    (h : Serves run clock reached strkey registry asset address client)
    (hpos : 1 ≤ targetId.toNat) (hne : identifier ≠ 0) (hrange : frInRange identifier) :
    (∀ n, Yields (reached n)
      (((run.state (clock n)).get (.dispute address targetId identifier)).map
        (storedDispute strkey))
      (readStoredDispute (client n) registry asset targetId.toNat identifier.toNat)) ∧
    ∀ m n r, m ≤ n →
      readStoredDispute (client m) registry asset targetId.toNat identifier.toNat = .ok (some r) →
      ∃ later : DisputeRecord, Yields (reached n) (some later)
          (readStoredDispute (client n) registry asset targetId.toNat identifier.toNat) ∧
        r.SameTerms later ∧ (r.status ≠ Text.ofString "Open" → later = r) := by
  have hread := h.readStoredDispute hpos hne hrange
  refine ⟨hread, fun m n r hmn hr => ?_⟩
  rcases hread m with hm | ⟨-, message, hfailed⟩
  · rw [hm, Except.ok.injEq, Option.map_eq_some_iff] at hr
    obtain ⟨d, hd, rfl⟩ := hr
    obtain ⟨e, he, hterms, hclosed⟩ := run.dispute_stable (h.monotone hmn) hd
    have hlater := hread n
    rw [he, Option.map_some] at hlater
    refine ⟨storedDispute strkey e, hlater, ?_, fun hstatus => ?_⟩
    · constructor
      · exact congrArg strkey hterms.disputer
      · exact congrArg storedOrigin hterms.origin
      · exact congrArg BitVec.toNat hterms.targetId
      · exact congrArg BitVec.toNat hterms.identifier
      · exact congrArg BitVec.toNat hterms.openedLedger
      · exact congrArg BitVec.toNat hterms.deadline
    · rw [hclosed]
      intro hopen
      exact hstatus (congrArg statusName hopen)
  · rw [hfailed] at hr
    cases hr

/-- The open dispute of the sample run is read at every time. -/
theorem stored_dispute_reads_sample : ∃ r,
    readStoredDispute (sampleEndpoint (fun _ => 4) 0) (Text.ofString "R") (Text.ofString "A") 1
      42 = .ok (some r) ∧ r.status = Text.ofString "Open" := by
  have hserves := serves_sampleEndpoint (monotone_const (c := 4)) (Text.ofString "R")
    (Text.ofString "A")
  obtain ⟨hread, -⟩ := @stored_dispute_reads _ _ _ _ _ _ _ _ _ 1 42 hserves (by decide)
    (by decide) (by decide)
  rcases hread 0 with hfirst | ⟨hreached, -⟩
  · rw [RegistryRun.sample_open] at hfirst
    exact ⟨_, hfirst, rfl⟩
  · exact absurd trivial hreached

end

end ZkPoR.Sdk
