import ZkPoR.Disputes

/-! # What a successful call of the registry does

`Op` lists the nine state-changing functions of the contract, and `Op.run` is
the call of one of them.  `Effect` says what a successful call does: one
constructor for each function, with every guard that it passed and the state
that it leaves.  `run_eq_ok` proves that the two agree, so an invariant is a case
analysis over `Effect`, and no later proof unfolds a function of the contract.

`Op.writes` names the keys that a call can write, and `Effect.get_of_not_writes`
is the frame: every other key keeps its value.
-/
namespace ZkPoR
open ByteString CheckedInt TypedStore Transaction
open Contract

/-! ## What the functions read -/

namespace State

/-- The last history identifier of an asset. -/
def attestationCount (s : State) (asset : Address) : U64 :=
  (s.get (.attestationCount asset)).getD 0

/-- The bond of an asset. -/
def bond (s : State) (asset : Address) : Bond := (s.get (.bond asset)).getD Bond.none

/-- The observation status of an asset. -/
def observationStatus (s : State) (asset : Address) : ObservationStatus :=
  (s.get (.observationStatus asset)).getD { observationCount := 0, firstLowObservation := none }

/-- The last signer key identifier of an asset. -/
def dkimKeyCount (s : State) (asset : Address) : U64 := (s.get (.dkimKeyCount asset)).getD 0

/-- The target of a dispute that names one or none. -/
def targetOf (s : State) (asset : Address) (target : Option U64) : U64 :=
  target.getD (s.attestationCount asset)

/-- Two new entries, both extended. -/
def record (s : State) (k : DataKey) (v : k.Val) (k' : DataKey) (v' : k'.Val) : State :=
  (((s.put k v).put k' v').extendEntry k).extendEntry k'

variable (s : State) (k k' : DataKey) (v : k.Val) (v' : k'.Val)

@[simp] theorem record_ledger : (s.record k v k' v').ledger = s.ledger := rfl
@[simp] theorem record_inst : (s.record k v k' v').inst = s.inst := rfl
@[simp] theorem record_native : (s.record k v k' v').native = s.native := rfl

@[simp] theorem get_record_snd : (s.record k v k' v').get k' = some v' := by simp [record]

theorem get_record_fst (h : k ≠ k') : (s.record k v k' v').get k = some v := by
  simp [record, get_put_of_ne, h]

theorem get_record_of_ne {j : DataKey} (h : j ≠ k) (h' : j ≠ k') :
    (s.record k v k' v').get j = s.get j := by
  simp [record, get_put_of_ne, h, h']

/-- The sum of a valuation over all persistent entries. -/
def total (f : (k : DataKey) → k.Val → Int) : Int := s.persistent.total f

/-- The worth of one persistent entry. -/
def worth (f : (k : DataKey) → k.Val → Int) : Int := s.persistent.worth f k

variable (f : (k : DataKey) → k.Val → Int)

theorem worth_eq : s.worth k f = (s.get k).elim 0 (f k) := rfl

@[simp] theorem total_extendEntry : (s.extendEntry k).total f = s.total f := by simp [total]
@[simp] theorem total_extendContract : s.extendContract.total f = s.total f := by simp [total]
@[simp] theorem total_move (a b : Address) (n : I128) : (s.move a b n).total f = s.total f := rfl

theorem total_put : (s.put k v).total f + s.worth k f = s.total f + f k v :=
  s.persistent.total_put f _ k v

theorem total_save : (s.save k v).total f + s.worth k f = s.total f + f k v := by
  simp [save, total_put]

variable {k k' f}

/-- A write of a key that has no worth keeps the sum. -/
theorem total_put_of_zero (h : ∀ v, f k v = 0) : (s.put k v).total f = s.total f := by
  have hworth : s.worth k f = 0 := s.persistent.worth_of_zero f h
  have := s.total_put k v f
  rw [hworth, h] at this
  simpa using this

theorem total_save_of_zero (h : ∀ v, f k v = 0) : (s.save k v).total f = s.total f := by
  simp [save, total_put_of_zero, h]

end State

section Reads
variable {H : Host} {invocation : Invocation H} {s s' : State}

@[simp] theorem History.count_eq_ok {asset : Address} {n : U64} :
    (History.count asset : Contract H U64) invocation s = .ok (n, s') ↔
      s.attestationCount asset = n ∧ s = s' := by
  simp [History.count, State.attestationCount, and_comm]

@[simp] theorem History.read_eq_ok {asset : Address} {id : U64} {a : Attestation} :
    (History.read asset id : Contract H Attestation) invocation s = .ok (a, s') ↔
      s.get (.attestation asset id) = some a ∧ s = s' := by
  simp [History.read]

@[simp] theorem assetEntry_eq_ok {asset : Address} {entry : AssetEntry} :
    (assetEntry asset : Contract H AssetEntry) invocation s = .ok (entry, s') ↔
      s.get (.asset asset) = some entry ∧ s = s' := by
  simp [assetEntry]

@[simp] theorem bond_eq_ok {asset : Address} {allocation : Bond} :
    (bond asset : Contract H Bond) invocation s = .ok (allocation, s') ↔
      s.bond asset = allocation ∧ s = s' := by
  simp [bond, State.bond, and_comm]

@[simp] theorem status_eq_ok {asset : Address} {state : ObservationStatus} :
    (status asset : Contract H ObservationStatus) invocation s = .ok (state, s') ↔
      s.observationStatus asset = state ∧ s = s' := by
  simp [status, State.observationStatus, and_comm]

@[simp] theorem openRecord_eq_ok {asset : Address} {targetId : U64} {id : U256} {d : Dispute} :
    (openRecord asset targetId id : Contract H Dispute) invocation s = .ok (d, s') ↔
      (s.get (.dispute asset targetId id) = some d ∧ d.status = .open) ∧ s = s' := by
  simp [openRecord]
  grind

@[simp] theorem forEach_requireAuth_eq_ok {reserves : List Address} {u : Unit} :
    (Tx.forEach reserves requireAuth : Contract H Unit) invocation s = .ok (u, s') ↔
      (∀ reserve ∈ reserves, invocation.authorized reserve = true) ∧ s = s' :=
  Tx.forEach_eq_ok (P := fun address => invocation.authorized address = true)
    fun _ _ _ => requireAuth_eq_ok

@[simp] theorem reserveSum_eq_ok {asset : Address} {reserves : List Address} {total : I128} :
    (reserveSum asset reserves : Contract H I128) invocation s = .ok (total, s') ↔
      reserveSumFrom (invocation.balance asset) 0 reserves = .ok total ∧ s = s' := by
  simp [reserveSum, and_comm]

@[simp] theorem rejectAuthorityAsReserve_eq_ok {authority : Address} {reserves : List Address}
    {u : Unit} : rejectAuthorityAsReserve authority reserves = .ok u ↔ authority ∉ reserves := by
  induction reserves with
  | nil => simp [rejectAuthorityAsReserve]
  | cons reserve reserves ih =>
    rw [rejectAuthorityAsReserve, List.mem_cons, not_or, eq_comm (a := authority)]
    split <;> simp [*]

@[simp] theorem Email.count_eq_ok {asset : Address} {n : U64} :
    (Email.count asset : Contract H U64) invocation s = .ok (n, s') ↔
      s.dkimKeyCount asset = n ∧ s = s' := by
  simp [Email.count, State.dkimKeyCount, and_comm]

@[simp] theorem History.append_eq_ok {asset : Address} {a : Attestation} {id : U64} :
    (History.append asset a : Contract H U64) invocation s = .ok (id, s') ↔
      id.toNat = (s.attestationCount asset).toNat + 1 ∧
      s.record (.attestation asset id) a (.attestationCount asset) id = s' := by
  simp [History.append, checkedAdd_eq_some, State.record]

end Reads

/-! ## What the functions establish -/

/-- The identifier that the evidence of a dispute is about. -/
def DisputeEvidence.identifier : DisputeEvidence → U256
  | .inclusion opening => opening.inclusion.id
  | .email evidence => evidence.id

/-- Where the evidence of a dispute comes from. -/
def DisputeEvidence.origin : DisputeEvidence → DisputeOrigin
  | .inclusion opening => .inclusion opening.attestationId
  | .email evidence => .email evidence.keyId

section Establish
variable {H : Host}

/-- The verifier of the instance accepts a proof. -/
def Accepts (invocation : Invocation H) (s : State) (inputs proof : Bytes) : Prop :=
  ∃ verifier, s.inst.get .verifier = some verifier ∧
    invocation.verifyProof verifier inputs proof = some ()

/-- The email verifier of the instance accepts a proof. -/
def Email.Accepts (invocation : Invocation H) (s : State) (inputs proof : Bytes) : Prop :=
  ∃ verifier, s.inst.get .emailVerifier = some verifier ∧
    invocation.verifyProof verifier inputs proof = some ()

/-- The authenticity of an authority, and the tier that it establishes. -/
def Authentic (invocation : Invocation H) (asset authority : Address) :
    AssetAuthenticity → AssetTier → Prop
  | .classic serializedAsset, tier =>
    classicIssuer serializedAsset = .ok authority ∧
      H.deployedAddress serializedAsset = some asset ∧ tier = .classicIssuer
  | .contract, tier =>
    asset ≠ H.nativeContract ∧ invocation.admin asset = some authority ∧
      tier = .contractAdministrator

/-- The attestation that an observation compares with, and the comparison. -/
def Baseline (s : State) (asset : Address) (observedSum : I128) :
    AttestationSlot → Option U64 → Bool → Prop
  | .empty, attestationId, belowAttested => attestationId = none ∧ belowAttested = false
  | .filled _, attestationId, belowAttested =>
    ∃ a, s.get (.attestation asset (s.attestationCount asset)) = some a ∧
      attestationId = some (s.attestationCount asset) ∧
      belowAttested = decide (observedSum.val < a.reserveSum.val)

/-- The evidence of a new dispute holds against its target. -/
def Proves (invocation : Invocation H) (s : State) (asset : Address) (targetId : U64) :
    DisputeEvidence → Prop
  | .inclusion opening =>
    opening.attestationId < targetId ∧
      ∃ old, s.get (.attestation asset opening.attestationId) = some old ∧
        inclusion H.poseidon2 old.finalRoot opening.inclusion = .ok ()
  | .email evidence =>
    evidence.id ≠ BitVec.ofNat 256 PADDING_LEAF_ID ∧ frInRange evidence.id ∧
      ∃ record, s.get (.dkimKey asset evidence.keyId) = some record ∧
        Email.Accepts invocation s (Email.publicInputs record evidence.id) evidence.proof

variable {invocation : Invocation H} {s s' : State}

@[simp] theorem verify_eq_ok {inputs proof : Bytes} {u : Unit} :
    (verify inputs proof : Contract H Unit) invocation s = .ok (u, s') ↔
      Accepts invocation s inputs proof ∧ s = s' := by
  simp [verify, Accepts]
  grind

@[simp] theorem Email.verify_eq_ok {asset : Address} {evidence : EmailEvidence} {u : Unit} :
    (Email.verify asset evidence : Contract H Unit) invocation s = .ok (u, s') ↔
      (evidence.id ≠ BitVec.ofNat 256 PADDING_LEAF_ID ∧ frInRange evidence.id ∧
        ∃ record, s.get (.dkimKey asset evidence.keyId) = some record ∧
          Email.Accepts invocation s (Email.publicInputs record evidence.id) evidence.proof) ∧
      s = s' := by
  simp [Email.verify, Email.read, Email.Accepts]
  grind

@[simp] theorem authenticate_eq_ok {asset authority : Address} {a : AssetAuthenticity}
    {tier : AssetTier} :
    (authenticate asset authority a : Contract H AssetTier) invocation s = .ok (tier, s') ↔
      Authentic invocation asset authority a tier ∧ s = s' := by
  cases a with
  | classic serializedAsset =>
    simp [authenticate, Authentic]
    grind
  | contract =>
    simp [authenticate, Authentic]
    grind

@[simp] theorem baseline_eq_ok {asset : Address} {observedSum : I128} {slot : AttestationSlot}
    {p : Option U64 × Bool} :
    (baseline asset observedSum slot : Contract H (Option U64 × Bool)) invocation s =
        .ok (p, s') ↔
      Baseline s asset observedSum slot p.1 p.2 ∧ s = s' := by
  obtain ⟨attestationId, belowAttested⟩ := p
  cases slot with
  | empty =>
    simp [baseline, Baseline]
    grind
  | filled a =>
    simp [baseline, Baseline]
    grind

@[simp] theorem proveOrigin_eq_ok {asset : Address} {targetId : U64} {evidence : DisputeEvidence}
    {p : U256 × DisputeOrigin} :
    (proveOrigin asset targetId evidence : Contract H (U256 × DisputeOrigin)) invocation s =
        .ok (p, s') ↔
      (Proves invocation s asset targetId evidence ∧ (evidence.identifier, evidence.origin) = p) ∧
        s = s' := by
  cases evidence with
  | inclusion opening =>
    simp [proveOrigin, Proves, DisputeEvidence.identifier, DisputeEvidence.origin]
    grind
  | email evidence =>
    simp [proveOrigin, Proves, DisputeEvidence.identifier, DisputeEvidence.origin]
    grind

end Establish

/-! ## What a successful call does -/

/-- A call of one state-changing function of the contract. -/
inductive Op
  | registerAsset (asset authority : Address) (authenticity : AssetAuthenticity)
      (reserves : List Address)
  | setReserves (asset : Address) (reserves : List Address)
  | submitAttestation (asset : Address) (snapshotLedger : U32) (finalRoot : U256)
      (totalLiabilities : U128) (proof : Bytes)
  | observeReserves (asset : Address)
  | registerDkimKey (asset : Address) (key : DkimKeyInput)
  | fundBond (asset : Address) (amount : I128)
  | openDispute (asset disputer : Address) (target : Option U64) (evidence : DisputeEvidence)
  | answerDispute (asset : Address) (targetId : U64) (evidence : InclusionEvidence)
  | resolveDispute (asset : Address) (targetId : U64) (id : U256)

/-- The call of a function, without the value that it answers. -/
def Op.run {H : Host} : Op → Contract H Unit
  | registerAsset asset authority authenticity reserves =>
    ZkPoR.registerAsset asset authority authenticity reserves
  | setReserves asset reserves => ZkPoR.setReserves asset reserves
  | submitAttestation asset snapshotLedger finalRoot totalLiabilities proof => do
    let _ ← ZkPoR.submitAttestation asset snapshotLedger finalRoot totalLiabilities proof
  | observeReserves asset => do
    let _ ← ZkPoR.observeReserves asset
  | registerDkimKey asset key => do
    let _ ← ZkPoR.registerDkimKey asset key
  | fundBond asset amount => ZkPoR.fundBond asset amount
  | openDispute asset disputer target evidence => do
    let _ ← ZkPoR.openDispute asset disputer target evidence
  | answerDispute asset targetId evidence => ZkPoR.answerDispute asset targetId evidence
  | resolveDispute asset targetId id => ZkPoR.resolveDispute asset targetId id

/-- The record of a new dispute. -/
def Dispute.new (disputer : Address) (origin : DisputeOrigin) (targetId : U64) (identifier : U256)
    (openedLedger deadline : U32) : Dispute :=
  { disputer, origin, targetId, identifier, openedLedger, deadline, status := .open,
    closedLedger := 0, burnedBond := 0 }

/-- The record of an answered dispute. -/
def Dispute.answer (d : Dispute) (now : U32) : Dispute :=
  { d with status := .answered, closedLedger := now }

/-- The record of a dispute that the authority did not answer. -/
def Dispute.omit (d : Dispute) (now : U32) (burnedBond : I128) : Dispute :=
  { d with burnedBond, status := .omissionProven, closedLedger := now }

/-- The event of an attestation. -/
def Attestation.accepted (a : Attestation) (attestationId : U64) (asset : Address) :
    AttestationAccepted :=
  { attestationId, asset, snapshotLedger := a.snapshotLedger, attestedLedger := a.attestedLedger,
    totalLiabilities := a.totalLiabilities, reserveSum := a.reserveSum, finalRoot := a.finalRoot }

/-- **What a successful call does**: the guards that it passed, and the state that
it leaves. -/
inductive Effect {H : Host} (invocation : Invocation H) (s : State) : Op → State → Prop
  | registerAsset {asset authority authenticity reserves tier hash}
      (fresh : s.get (.asset asset) = none)
      (authentic : Authentic invocation asset authority authenticity tier)
      (notReserve : authority ∉ reserves)
      (hashed : ZkPoR.reserveSetHash H.poseidon2 reserves = .ok hash)
      (auth : invocation.authorized authority = true)
      (reservesAuth : ∀ reserve ∈ reserves, invocation.authorized reserve = true) :
      Effect invocation s (.registerAsset asset authority authenticity reserves)
        (s.save (.asset asset)
          { authority, tier, reserves, reserveSetHash := hash, attestation := .empty })
  | setReserves {asset reserves entry hash}
      (registered : s.get (.asset asset) = some entry)
      (notReserve : entry.authority ∉ reserves)
      (hashed : ZkPoR.reserveSetHash H.poseidon2 reserves = .ok hash)
      (auth : invocation.authorized entry.authority = true)
      (reservesAuth : ∀ reserve ∈ reserves, invocation.authorized reserve = true) :
      Effect invocation s (.setReserves asset reserves)
        (s.save (.asset asset)
          { entry with reserveSetHash := hash, reserves, attestation := .empty })
  | submitAttestation {asset proof entry} {a : Attestation} {id}
      (registered : s.get (.asset asset) = some entry)
      (attestedNow : a.attestedLedger = s.ledger.sequence)
      (notBefore : a.snapshotLedger ≤ a.attestedLedger)
      (recent : a.attestedLedger ≤ saturatingAdd a.snapshotLedger ATTESTATION_MAX_AGE_LEDGERS)
      (inRange : frInRange a.finalRoot)
      (auth : invocation.authorized entry.authority = true)
      (context : contextHash H.poseidon2 entry.authority asset entry.reserveSetHash
        a.snapshotLedger = .ok a.contextHash)
      (verified : Accepts invocation s
        (publicInputs a.contextHash a.finalRoot a.totalLiabilities) proof)
      (summed : reserveSumFrom (invocation.balance asset) 0 entry.reserves = .ok a.reserveSum)
      (next : id.toNat = (s.attestationCount asset).toNat + 1) :
      Effect invocation s
        (.submitAttestation asset a.snapshotLedger a.finalRoot a.totalLiabilities proof)
        (((s.record (.attestation asset id) a (.attestationCount asset) id).save (.asset asset)
          { entry with attestation := .filled a }).publish (a.accepted id asset))
  | observeReserves {asset entry} {o : ReserveObservation}
      (registered : s.get (.asset asset) = some entry)
      (next : o.observationId.toNat = (s.observationStatus asset).observationCount.toNat + 1)
      (summed : reserveSumFrom (invocation.balance asset) 0 entry.reserves = .ok o.observedSum)
      (observedNow : o.observedLedger = s.ledger.sequence)
      (currentSet : o.reserveSetHash = entry.reserveSetHash)
      (compared : Baseline s asset o.observedSum entry.attestation o.attestationId
        o.belowAttested) :
      Effect invocation s (.observeReserves asset)
        (s.record (.observation asset o.observationId) o (.observationStatus asset)
          ((s.observationStatus asset).observe o.observationId o.belowAttested)).extendContract
  | registerDkimKey {asset entry keyId} {record : DkimKey}
      (registered : s.get (.asset asset) = some entry)
      (modulus : record.key.modulusHash ≠ 0 ∧ frInRange record.key.modulusHash)
      (redc : record.key.redcHash ≠ 0 ∧ frInRange record.key.redcHash)
      (next : keyId.toNat = (s.dkimKeyCount asset).toNat + 1)
      (context : Email.context H asset entry.authority keyId record.key = .ok record.contextHash)
      (nonzero : record.contextHash ≠ 0)
      (auth : invocation.authorized entry.authority = true)
      (registeredNow : record.registeredLedger = s.ledger.sequence) :
      Effect invocation s (.registerDkimKey asset record.key)
        (s.record (.dkimKey asset keyId) record (.dkimKeyCount asset) keyId).extendContract
  | fundBond {asset amount entry available sum}
      (registered : s.get (.asset asset) = some entry)
      (positive : 0 < amount.val)
      (added : (s.bond asset).available.checkedAdd amount = some available)
      (bounded : available.checkedAdd (s.bond asset).burned = some sum)
      (auth : invocation.authorized entry.authority = true)
      (funded : amount.val ≤ s.native entry.authority)
      (accepted : invocation.transferAccepted entry.authority H.currentContract amount = true) :
      Effect invocation s (.fundBond asset amount)
        ((s.save (.bond asset) { s.bond asset with available }).move entry.authority
          H.currentContract amount)
  | openDispute {asset disputer target evidence entry targetRecord deadline}
      (registered : s.get (.asset asset) = some entry)
      (recorded : s.get (.attestation asset (s.targetOf asset target)) = some targetRecord)
      (notBefore : targetRecord.attestedLedger ≤ s.ledger.sequence)
      (recent : s.ledger.sequence - targetRecord.attestedLedger ≤ TARGET_MAX_AGE_LEDGERS)
      (proven : Proves invocation s asset (s.targetOf asset target) evidence)
      (fresh : s.get (.dispute asset (s.targetOf asset target) evidence.identifier) = none)
      (deadlineExact : deadline.toNat = s.ledger.sequence.toNat + ANSWER_WINDOW_LEDGERS.toNat)
      (auth : invocation.authorized disputer = true)
      (funded : DISPUTE_DEPOSIT_STROOPS.val ≤ s.native disputer)
      (accepted : invocation.transferAccepted disputer H.currentContract
        DISPUTE_DEPOSIT_STROOPS = true) :
      Effect invocation s (.openDispute asset disputer target evidence)
        ((s.save (.dispute asset (s.targetOf asset target) evidence.identifier)
          (.new disputer evidence.origin (s.targetOf asset target) evidence.identifier
            s.ledger.sequence deadline)).move disputer H.currentContract DISPUTE_DEPOSIT_STROOPS)
  | answerDispute {asset targetId evidence entry} {d : Dispute} {target : Attestation}
      (registered : s.get (.asset asset) = some entry)
      (stored : s.get (.dispute asset targetId evidence.id) = some d)
      (stillOpen : d.status = .open)
      (inWindow : s.ledger.sequence ≤ d.deadline)
      (recorded : s.get (.attestation asset targetId) = some target)
      (included : inclusion H.poseidon2 target.finalRoot evidence = .ok ())
      (auth : invocation.authorized entry.authority = true)
      (funded : DISPUTE_DEPOSIT_STROOPS.val ≤ s.native H.currentContract)
      (accepted : invocation.transferAccepted H.currentContract entry.authority
        DISPUTE_DEPOSIT_STROOPS = true) :
      Effect invocation s (.answerDispute asset targetId evidence)
        ((s.save (.dispute asset targetId evidence.id) (d.answer s.ledger.sequence)).move
          H.currentContract entry.authority DISPUTE_DEPOSIT_STROOPS)
  | resolveDispute {asset targetId id} {d : Dispute} {burned : I128}
      (stored : s.get (.dispute asset targetId id) = some d)
      (stillOpen : d.status = .open)
      (afterWindow : d.deadline < s.ledger.sequence)
      (burns : (s.bond asset).burned.checkedAdd (s.bond asset).available = some burned)
      (funded : DISPUTE_DEPOSIT_STROOPS.val ≤ s.native H.currentContract)
      (accepted : invocation.transferAccepted H.currentContract d.disputer
        DISPUTE_DEPOSIT_STROOPS = true) :
      Effect invocation s (.resolveDispute asset targetId id)
        (((s.save (.bond asset) { available := 0, burned }).save (.dispute asset targetId id)
          (d.omit s.ledger.sequence (s.bond asset).available)).move H.currentContract d.disputer
            DISPUTE_DEPOSIT_STROOPS)

/-! ## The functions have exactly these effects -/

@[simp] theorem deposit_val : DISPUTE_DEPOSIT_STROOPS.val = 100000000 := rfl

section Effects
variable {H : Host} {invocation : Invocation H} {s s' : State} {u : Unit}

theorem registerAsset_effect {asset authority : Address} {authenticity : AssetAuthenticity}
    {reserves : List Address} :
    (Op.registerAsset asset authority authenticity reserves).run invocation s = .ok (u, s') ↔
      Effect invocation s (.registerAsset asset authority authenticity reserves) s' := by
  simp only [Op.run, registerAsset, persistentGet, refuseIf, ofResult, ofContext, persistentSet,
    extendEntry, extendContract, Tx.bind_eq_ok, Tx.reads_eq_ok, Tx.refuseIf_eq_ok,
    Bool.not_eq_true, Option.isSome_eq_false_iff, Option.isNone_iff_eq_none, authenticate_eq_ok,
    Tx.lift_eq_ok, rejectAuthorityAsReserve_eq_ok, requireAuth_eq_ok, forEach_requireAuth_eq_ok,
    Tx.modify_eq_ok, exists_eq_left', exists_const, ↓existsAndEq, and_true]
  constructor
  · rintro ⟨fresh, tier, authentic, notReserve, hash, hashed, auth, reservesAuth, rfl⟩
    exact .registerAsset fresh authentic notReserve hashed auth reservesAuth
  · intro h
    cases h with
    | registerAsset fresh authentic notReserve hashed auth reservesAuth =>
      exact ⟨fresh, _, authentic, notReserve, _, hashed, auth, reservesAuth, rfl⟩

theorem setReserves_effect {asset : Address} {reserves : List Address} :
    (Op.setReserves asset reserves).run invocation s = .ok (u, s') ↔
      Effect invocation s (.setReserves asset reserves) s' := by
  simp only [Op.run, setReserves, persistentGet, okOr, ofResult, ofContext, persistentSet,
    extendEntry, extendContract, Tx.bind_eq_ok, Tx.reads_eq_ok, Tx.orFail_eq_ok, Tx.lift_eq_ok,
    rejectAuthorityAsReserve_eq_ok, requireAuth_eq_ok, forEach_requireAuth_eq_ok, Tx.modify_eq_ok,
    exists_eq_left', exists_const, ↓existsAndEq, and_true]
  constructor
  · rintro ⟨entry, registered, notReserve, hash, hashed, auth, reservesAuth, rfl⟩
    exact .setReserves registered notReserve hashed auth reservesAuth
  · intro h
    cases h with
    | setReserves registered notReserve hashed auth reservesAuth =>
      exact ⟨_, registered, notReserve, _, hashed, auth, reservesAuth, rfl⟩

theorem submitAttestation_effect {asset : Address} {snapshotLedger : U32} {finalRoot : U256}
    {totalLiabilities : U128} {proof : Bytes} :
    (Op.submitAttestation asset snapshotLedger finalRoot totalLiabilities proof).run invocation s =
        .ok (u, s') ↔
      Effect invocation s
        (.submitAttestation asset snapshotLedger finalRoot totalLiabilities proof) s' := by
  simp only [Op.run, submitAttestation, persistentGet, okOr, ledgerSequence, refuseIf, ofContext,
    persistentSet, extendEntry, extendContract, publish, Tx.bind_eq_ok, Tx.reads_eq_ok,
    Tx.orFail_eq_ok, Tx.refuseIf_eq_ok, not_or, BitVec.not_lt, Decidable.not_not,
    requireAuth_eq_ok, Tx.lift_eq_ok, verify_eq_ok, reserveSum_eq_ok, History.append_eq_ok,
    Tx.modify_eq_ok, Tx.pure_eq_ok, exists_eq_left', exists_const, ↓existsAndEq, and_true,
    true_and, exists_eq_right]
  constructor
  · rintro ⟨id, entry, registered, ⟨notBefore, recent⟩, inRange, auth, contextHash, context,
      verified, reserveSum, summed, next, rfl⟩
    exact .submitAttestation
      (a := ⟨contextHash, finalRoot, totalLiabilities, snapshotLedger, reserveSum,
        s.ledger.sequence⟩)
      registered rfl notBefore recent inRange auth context verified summed next
  · intro h
    cases h with
    | submitAttestation registered attestedNow notBefore recent inRange auth context verified
        summed next =>
      rw [attestedNow] at notBefore recent
      refine ⟨_, _, registered, ⟨notBefore, recent⟩, inRange, auth, _, context, verified, _, summed,
        next, ?_⟩
      rw [← attestedNow]
      rfl

theorem observeReserves_effect {asset : Address} :
    (Op.observeReserves asset).run invocation s = .ok (u, s') ↔
      Effect invocation s (.observeReserves asset) s' := by
  simp only [Op.run, observeReserves, persistentGet, okOr, BitVec.ofNat_eq_ofNat, ledgerSequence,
    persistentSet, extendEntry, extendContract, Tx.bind_eq_ok, Tx.reads_eq_ok, Tx.orFail_eq_ok,
    status_eq_ok, checkedAdd_eq_some, BitVec.toNat_ofNat, Nat.reducePow, Nat.one_mod,
    reserveSum_eq_ok, baseline_eq_ok, Tx.modify_eq_ok, Tx.pure_eq_ok, exists_eq_left',
    exists_const, ↓existsAndEq, and_true, Prod.exists, true_and, exists_eq_right, exists_and_left]
  constructor
  · rintro ⟨entry, registered, id, next, observedSum, summed, attestationId, belowAttested,
      compared, rfl⟩
    exact .observeReserves
      (o := ⟨id, observedSum, s.ledger.sequence, entry.reserveSetHash, attestationId,
        belowAttested⟩)
      registered next summed rfl rfl compared
  · intro h
    cases h with
    | observeReserves registered next summed observedNow currentSet compared =>
      refine ⟨_, registered, _, next, _, summed, _, _, compared, ?_⟩
      rw [← observedNow, ← currentSet]
      rfl

theorem registerDkimKey_effect {asset : Address} {key : DkimKeyInput} :
    (Op.registerDkimKey asset key).run invocation s = .ok (u, s') ↔
      Effect invocation s (.registerDkimKey asset key) s' := by
  simp only [Op.run, registerDkimKey, persistentGet, okOr, refuseIf, BitVec.ofNat_eq_ofNat,
    ofContext, ledgerSequence, persistentSet, extendEntry, extendContract, Tx.bind_eq_ok,
    Tx.reads_eq_ok, Tx.orFail_eq_ok, Tx.refuseIf_eq_ok, not_or, Decidable.not_not,
    Email.count_eq_ok, checkedAdd_eq_some, BitVec.toNat_ofNat, Nat.reducePow, Nat.one_mod,
    Tx.lift_eq_ok, requireAuth_eq_ok, Tx.modify_eq_ok, Tx.pure_eq_ok, exists_eq_left',
    exists_const, ↓existsAndEq, and_true, true_and, exists_and_left, exists_eq_right]
  constructor
  · rintro ⟨keyId, entry, registered, ⟨modulus, redc, modulusRange, redcRange⟩, next,
      contextHash, context, nonzero, auth, rfl⟩
    exact @Effect.registerDkimKey _ _ _ _ _ _ ⟨key, s.ledger.sequence, contextHash⟩ registered
      ⟨modulus, modulusRange⟩ ⟨redc, redcRange⟩ next context nonzero auth rfl
  · intro h
    cases h with
    | registerDkimKey registered modulus redc next context nonzero auth registeredNow =>
      refine ⟨_, _, registered, ⟨modulus.1, redc.1, modulus.2, redc.2⟩, next, _, context, nonzero,
        auth, ?_⟩
      rw [← registeredNow]
      rfl

theorem fundBond_effect {asset : Address} {amount : I128} :
    (Op.fundBond asset amount).run invocation s = .ok (u, s') ↔
      Effect invocation s (.fundBond asset amount) s' := by
  simp only [Op.run, fundBond, refuseIf, okOr, save, Tx.bind_eq_ok, assetEntry_eq_ok,
    Tx.refuseIf_eq_ok, not_le, bond_eq_ok, Tx.orFail_eq_ok, requireAuth_eq_ok, Tx.modify_eq_ok,
    transfer_eq_ok, exists_eq_left', State.save_native, exists_const, ↓existsAndEq, and_true,
    exists_and_right]
  constructor
  · rintro ⟨entry, registered, positive, available, added, ⟨sum, bounded⟩, auth,
      ⟨_, funded, accepted⟩, rfl⟩
    exact .fundBond registered positive added bounded auth funded accepted
  · intro h
    cases h with
    | fundBond registered positive added bounded auth funded accepted =>
      exact ⟨_, registered, positive, _, added, ⟨_, bounded⟩, auth,
        ⟨positive.le, funded, accepted⟩, rfl⟩

/-- The answer and the state of a call of `open_dispute` that succeeds. -/
theorem openDispute_eq_ok {asset disputer : Address} {target : Option U64}
    {evidence : DisputeEvidence} {d : Dispute} :
    ZkPoR.openDispute asset disputer target evidence invocation s = .ok (d, s') ↔
      (∃ entry, s.get (.asset asset) = some entry) ∧
      ∃ record, s.get (.attestation asset (s.targetOf asset target)) = some record ∧
        (record.attestedLedger ≤ s.ledger.sequence ∧
          s.ledger.sequence - record.attestedLedger ≤ TARGET_MAX_AGE_LEDGERS) ∧
        Proves invocation s asset (s.targetOf asset target) evidence ∧
        s.get (.dispute asset (s.targetOf asset target) evidence.identifier) = none ∧
        ∃ deadline : U32,
          deadline.toNat = s.ledger.sequence.toNat + ANSWER_WINDOW_LEDGERS.toNat ∧
          invocation.authorized disputer = true ∧
          (DISPUTE_DEPOSIT_STROOPS.val ≤ s.native disputer ∧
            invocation.transferAccepted disputer H.currentContract DISPUTE_DEPOSIT_STROOPS =
              true) ∧
          d = .new disputer evidence.origin (s.targetOf asset target) evidence.identifier
            s.ledger.sequence deadline ∧
          s' = (s.save (.dispute asset (s.targetOf asset target) evidence.identifier) d).move
            disputer H.currentContract DISPUTE_DEPOSIT_STROOPS := by
  simp only [openDispute, Contract.ledgerSequence, Contract.refuseIf, Contract.persistentGet,
    Contract.okOr, Contract.save, BitVec.ofNat_eq_ofNat, Tx.bind_eq_ok, assetEntry_eq_ok,
    History.count_eq_ok, History.read_eq_ok, Tx.reads_eq_ok, Tx.refuseIf_eq_ok, not_or,
    BitVec.not_lt, proveOrigin_eq_ok, Bool.not_eq_true, Option.isSome_eq_false_iff,
    Option.isNone_iff_eq_none, Tx.orFail_eq_ok, checkedAdd_eq_some, Contract.requireAuth_eq_ok,
    Tx.modify_eq_ok, Contract.transfer_eq_ok, deposit_val, Nat.ofNat_nonneg, true_and,
    Tx.pure_eq_ok, exists_const, exists_eq_left', State.save_native, ↓existsAndEq, and_true,
    Prod.exists, Prod.mk.injEq, exists_and_right]
  constructor
  · rintro ⟨registered, record, recorded, window, proven, fresh, deadline, exact, auth, pays, rfl,
      rfl⟩
    exact ⟨registered, record, recorded, window, proven, fresh, deadline, exact, auth, pays, rfl,
      rfl⟩
  · rintro ⟨registered, record, recorded, window, proven, fresh, deadline, exact, auth, pays, rfl,
      rfl⟩
    exact ⟨registered, record, recorded, window, proven, fresh, deadline, exact, auth, pays, rfl,
      rfl⟩

theorem openDispute_effect {asset disputer : Address} {target : Option U64}
    {evidence : DisputeEvidence} :
    (Op.openDispute asset disputer target evidence).run invocation s = .ok (u, s') ↔
      Effect invocation s (.openDispute asset disputer target evidence) s' := by
  simp only [Op.run, Tx.bind_eq_ok, Tx.pure_eq_ok, openDispute_eq_ok]
  constructor
  · rintro ⟨d, s'', ⟨⟨entry, registered⟩, targetRecord, recorded, ⟨notBefore, recent⟩, proven,
      fresh, deadline, deadlineExact, auth, ⟨funded, accepted⟩, rfl, rfl⟩, -, rfl⟩
    exact .openDispute registered recorded notBefore recent proven fresh deadlineExact auth funded
      accepted
  · intro h
    cases h with
    | openDispute registered recorded notBefore recent proven fresh deadlineExact auth funded
        accepted =>
      exact ⟨_, _, ⟨⟨_, registered⟩, _, recorded, ⟨notBefore, recent⟩, proven, fresh, _,
        deadlineExact, auth, ⟨funded, accepted⟩, rfl, rfl⟩, trivial, rfl⟩

theorem answerDispute_effect {asset : Address} {targetId : U64} {evidence : InclusionEvidence} :
    (Op.answerDispute asset targetId evidence).run invocation s = .ok (u, s') ↔
      Effect invocation s (.answerDispute asset targetId evidence) s' := by
  simp only [Op.run, answerDispute, ledgerSequence, refuseIf, ofResult, save, Tx.bind_eq_ok,
    assetEntry_eq_ok, openRecord_eq_ok, Tx.reads_eq_ok, Tx.refuseIf_eq_ok, BitVec.not_lt,
    History.read_eq_ok, Tx.lift_eq_ok, requireAuth_eq_ok, Tx.modify_eq_ok, transfer_eq_ok,
    deposit_val, Nat.ofNat_nonneg, true_and, exists_eq_left', State.save_native, exists_const,
    ↓existsAndEq, and_true, exists_and_right]
  constructor
  · rintro ⟨entry, registered, d, ⟨stored, stillOpen⟩, inWindow, target, recorded,
      ⟨_, included⟩, auth, ⟨funded, accepted⟩, rfl⟩
    exact .answerDispute registered stored stillOpen inWindow recorded included auth funded accepted
  · intro h
    cases h with
    | answerDispute registered stored stillOpen inWindow recorded included auth funded accepted =>
      exact ⟨_, registered, _, ⟨stored, stillOpen⟩, inWindow, _, recorded, ⟨_, included⟩, auth,
        ⟨funded, accepted⟩, rfl⟩

theorem resolveDispute_effect {asset : Address} {targetId : U64} {id : U256} :
    (Op.resolveDispute asset targetId id).run invocation s = .ok (u, s') ↔
      Effect invocation s (.resolveDispute asset targetId id) s' := by
  simp only [Op.run, resolveDispute, ledgerSequence, refuseIf, okOr, save, Tx.bind_eq_ok,
    openRecord_eq_ok, Tx.reads_eq_ok, Tx.refuseIf_eq_ok, BitVec.not_le, bond_eq_ok,
    Tx.orFail_eq_ok, Tx.modify_eq_ok, transfer_eq_ok, deposit_val, Nat.ofNat_nonneg, true_and,
    exists_eq_left', State.save_native, exists_const, ↓existsAndEq, and_true]
  constructor
  · rintro ⟨d, ⟨stored, stillOpen⟩, afterWindow, burned, burns, ⟨funded, accepted⟩, rfl⟩
    exact .resolveDispute stored stillOpen afterWindow burns funded accepted
  · intro h
    cases h with
    | resolveDispute stored stillOpen afterWindow burns funded accepted =>
      exact ⟨_, ⟨stored, stillOpen⟩, afterWindow, _, burns, ⟨funded, accepted⟩, rfl⟩

/-- **The functions have exactly the effects of `Effect`.** -/
theorem run_eq_ok {op : Op} : op.run invocation s = .ok (u, s') ↔ Effect invocation s op s' := by
  cases op with
  | registerAsset asset authority authenticity reserves => exact registerAsset_effect
  | setReserves asset reserves => exact setReserves_effect
  | submitAttestation asset snapshotLedger finalRoot totalLiabilities proof =>
    exact submitAttestation_effect
  | observeReserves asset => exact observeReserves_effect
  | registerDkimKey asset key => exact registerDkimKey_effect
  | fundBond asset amount => exact fundBond_effect
  | openDispute asset disputer target evidence => exact openDispute_effect
  | answerDispute asset targetId evidence => exact answerDispute_effect
  | resolveDispute asset targetId id => exact resolveDispute_effect

end Effects

/-! ## The frame -/

/-- The asset that a call is about. -/
def Op.asset : Op → Address
  | registerAsset asset _ _ _ => asset
  | setReserves asset _ => asset
  | submitAttestation asset _ _ _ _ => asset
  | observeReserves asset => asset
  | registerDkimKey asset _ => asset
  | fundBond asset _ => asset
  | openDispute asset _ _ _ => asset
  | answerDispute asset _ _ => asset
  | resolveDispute asset _ _ => asset

/-- The keys that a call can write in a state. -/
def Op.writes (s : State) : Op → DataKey → Prop
  | registerAsset asset _ _ _, k => k = .asset asset
  | setReserves asset _, k => k = .asset asset
  | submitAttestation asset _ _ _ _, k =>
    k = .asset asset ∨ k = .attestationCount asset ∨
      ∃ id : U64, id.toNat = (s.attestationCount asset).toNat + 1 ∧ k = .attestation asset id
  | observeReserves asset, k =>
    k = .observationStatus asset ∨
      ∃ id : U64, id.toNat = (s.observationStatus asset).observationCount.toNat + 1 ∧
        k = .observation asset id
  | registerDkimKey asset _, k =>
    k = .dkimKeyCount asset ∨
      ∃ id : U64, id.toNat = (s.dkimKeyCount asset).toNat + 1 ∧ k = .dkimKey asset id
  | fundBond asset _, k => k = .bond asset
  | openDispute asset _ target evidence, k =>
    k = .dispute asset (s.targetOf asset target) evidence.identifier
  | answerDispute asset targetId evidence, k => k = .dispute asset targetId evidence.id
  | resolveDispute asset targetId id, k => k = .bond asset ∨ k = .dispute asset targetId id

section Frame
variable {H : Host} {invocation : Invocation H} {op : Op} {s s' : State}

/-- **Frame.**  A call keeps the value of every key that it does not write. -/
theorem Effect.get_of_not_writes (h : Effect invocation s op s') {k : DataKey}
    (hk : ¬ op.writes s k) : s'.get k = s.get k := by
  cases h with
  | registerAsset => simp [State.get_save_of_ne, show k ≠ _ from hk]
  | setReserves => simp [State.get_save_of_ne, show k ≠ _ from hk]
  | submitAttestation _ _ _ _ _ _ _ _ _ next =>
    simp only [Op.writes, not_or, not_exists, not_and] at hk
    simp [State.get_save_of_ne, State.get_record_of_ne, hk.1, hk.2.1, hk.2.2 _ next]
  | observeReserves _ next =>
    simp only [Op.writes, not_or, not_exists, not_and] at hk
    simp [State.get_record_of_ne, hk.1, hk.2 _ next]
  | registerDkimKey _ _ _ next =>
    simp only [Op.writes, not_or, not_exists, not_and] at hk
    simp [State.get_record_of_ne, hk.1, hk.2 _ next]
  | fundBond => simp [State.get_save_of_ne, show k ≠ _ from hk]
  | openDispute => simp [State.get_save_of_ne, show k ≠ _ from hk]
  | answerDispute => simp [State.get_save_of_ne, show k ≠ _ from hk]
  | resolveDispute =>
    simp only [Op.writes, not_or] at hk
    simp [State.get_save_of_ne, hk.1, hk.2]

theorem Effect.get_eq_or_writes (h : Effect invocation s op s') (k : DataKey) :
    s'.get k = s.get k ∨ op.writes s k :=
  (Classical.em (op.writes s k)).symm.imp_left h.get_of_not_writes

/-- A call keeps the sum of a valuation that gives no worth to the keys that it writes. -/
theorem Effect.total_frame (h : Effect invocation s op s') {f : (k : DataKey) → k.Val → Int}
    (hf : ∀ k, op.writes s k → ∀ v, f k v = 0) : s'.total f = s.total f := by
  refine Store.total_congr f fun k => ?_
  change s'.worth k f = s.worth k f
  rcases h.get_eq_or_writes k with hget | hwrites
  · rw [State.worth_eq, State.worth_eq, hget]
  · exact (Store.worth_of_zero _ f (hf k hwrites)).trans
      (Store.worth_of_zero _ f (hf k hwrites)).symm

/-- The functions that move no tokens. -/
def Op.Bookkeeping : Op → Prop
  | registerAsset _ _ _ _ | setReserves _ _ | submitAttestation _ _ _ _ _ | observeReserves _
  | registerDkimKey _ _ => True
  | fundBond _ _ | openDispute _ _ _ _ | answerDispute _ _ _ | resolveDispute _ _ _ => False

/-- They write no bond and no dispute either. -/
theorem Op.Bookkeeping.writes (hop : op.Bookkeeping) {k : DataKey} (h : op.writes s k) :
    (∀ a, k ≠ .bond a) ∧ ∀ a t i, k ≠ .dispute a t i := by
  cases op <;> simp only [Op.Bookkeeping, Op.writes] at hop h <;> grind

theorem Effect.native_of_bookkeeping (h : Effect invocation s op s') (hop : op.Bookkeeping) :
    s'.native = s.native := by
  cases h with
  | registerAsset | setReserves | submitAttestation | observeReserves | registerDkimKey => simp
  | fundBond | openDispute | answerDispute | resolveDispute => exact hop.elim

/-- They keep the sum of a valuation that gives worth to bonds and disputes only. -/
theorem Effect.total_of_bookkeeping (h : Effect invocation s op s') (hop : op.Bookkeeping)
    {f : (k : DataKey) → k.Val → Int}
    (hf : ∀ k, (∀ a, k ≠ .bond a) → (∀ a t i, k ≠ .dispute a t i) → ∀ v, f k v = 0) :
    s'.total f = s.total f :=
  h.total_frame fun k hk => hf k (hop.writes hk).1 (hop.writes hk).2

/-- Every key that a call writes belongs to its asset. -/
theorem Op.owner_of_writes {k : DataKey} (h : op.writes s k) : k.owner = some op.asset := by
  cases op <;> simp only [Op.writes] at h <;> grind [DataKey.owner, Op.asset]

/-- A call sees one ledger. -/
theorem Effect.ledger (h : Effect invocation s op s') : s'.ledger = s.ledger := by
  cases h <;> simp

/-- No call changes the verifiers. -/
theorem Effect.inst (h : Effect invocation s op s') : s'.inst = s.inst := by
  cases h <;> simp

end Frame

end ZkPoR
