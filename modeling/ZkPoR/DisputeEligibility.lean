import ZkPoR.DisputeSettlement

/-! # Who can open a dispute

`Eligible` says in exact integers when `open_dispute` succeeds: the target is recent,
the deadline exists, the evidence holds, no dispute stands under the key, and the
disputer pays.  The checked arithmetic of the contract agrees with it at both ends of
the window and at the top of the ledger range (`openDispute_exact`).
-/
namespace ZkPoR
open ByteString CheckedInt TypedStore Transaction TransitionSystem

section
variable {H : Host}

/-- The evidence of a new dispute against a target, spelled out for both kinds. -/
def Evidenced (invocation : Invocation H) (s : State) (emailVerifier asset : Address)
    (targetId : U64) (evidence : DisputeEvidence) : Prop :=
  (∃ opening, evidence = .inclusion opening ∧ opening.attestationId < targetId ∧
    ∃ old, s.get (.attestation asset opening.attestationId) = some old ∧
      inclusion H.poseidon2 old.finalRoot opening.inclusion = .ok ()) ∨
  ∃ email, evidence = .email email ∧ email.id ≠ 0 ∧ email.id.toNat < frModulus ∧
    ∃ record, s.get (.dkimKey asset email.keyId) = some record ∧
      invocation.verifyProof emailVerifier (Email.publicInputs record email.id) email.proof =
        some ()

/-- **When a dispute opens.** -/
structure Eligible (invocation : Invocation H) (s : State) (emailVerifier asset disputer : Address)
    (targetId : U64) (evidence : DisputeEvidence) (target : Attestation) : Prop where
  registered : ∃ entry, s.get (.asset asset) = some entry
  recorded : s.get (.attestation asset targetId) = some target
  notBefore : target.attestedLedger.toNat ≤ s.ledger.sequence.toNat
  recent : s.ledger.sequence.toNat ≤ target.attestedLedger.toNat + 518400
  deadline : s.ledger.sequence.toNat + 51840 ≤ 2 ^ 32 - 1
  evidenced : Evidenced invocation s emailVerifier asset targetId evidence
  fresh : s.get (.dispute asset targetId evidence.identifier) = none
  auth : invocation.authorized disputer = true
  funded : 100000000 ≤ s.native disputer
  accepted : invocation.transferAccepted disputer H.currentContract DISPUTE_DEPOSIT_STROOPS = true

/-- The record that a call of `open_dispute` answers. -/
def State.newDispute (s : State) (disputer : Address) (targetId : U64)
    (evidence : DisputeEvidence) : Dispute :=
  .new disputer evidence.origin targetId evidence.identifier s.ledger.sequence
    (BitVec.ofNat 32 (s.ledger.sequence.toNat + 51840))

/-- **All that a call of `open_dispute` changes**: one record, the balances of one
transfer, and the lifetime of the contract, which a write moves forward. -/
structure OpenedOnly (H : Host) (s s' : State) (asset disputer : Address) (targetId : U64)
    (identifier : U256) (d : Dispute) : Prop where
  stored : s'.get (.dispute asset targetId identifier) = some d
  others : ∀ k, k ≠ .dispute asset targetId identifier →
    s'.persistent.entry k = s.persistent.entry k
  native : s'.native = moveFunds s.native disputer H.currentContract 100000000
  inst : s'.inst = s.inst
  ledger : s'.ledger = s.ledger
  events : s'.events = s.events
  instLiveUntil : s'.instLiveUntil = s.extendContract.instLiveUntil

variable {invocation : Invocation H} {s s' : State} {emailVerifier asset disputer : Address}
  {target : Option U64} {targetId : U64} {evidence : DisputeEvidence}

/-- The evidence check, with the verifier of the deployment. -/
theorem proves_iff (hverifier : s.inst.get .emailVerifier = some emailVerifier) :
    Proves invocation s asset targetId evidence ↔
      Evidenced invocation s emailVerifier asset targetId evidence := by
  have hpadding : BitVec.ofNat 256 PADDING_LEAF_ID = (0 : U256) := rfl
  cases evidence with
  | inclusion opening => simp [Proves, Evidenced]
  | email email => simp [Proves, Evidenced, Email.Accepts, hverifier, hpadding, frInRange]

/-- The age check of the contract, on exact integers. -/
theorem recent_iff {now attested : U32} (h : attested ≤ now) :
    now - attested ≤ TARGET_MAX_AGE_LEDGERS ↔ now.toNat ≤ attested.toNat + 518400 := by
  have hle : attested.toNat ≤ now.toNat := h
  have hsub : (now - attested).toNat = now.toNat - attested.toNat :=
    BitVec.toNat_sub_of_le h
  change (now - attested).toNat ≤ 518400 ↔ _
  omega

/-- The deadline of the contract, on exact integers. -/
theorem deadline_iff {now deadline : U32} :
    deadline.toNat = now.toNat + ANSWER_WINDOW_LEDGERS.toNat ↔
      now.toNat + 51840 ≤ 2 ^ 32 - 1 ∧ deadline = BitVec.ofNat 32 (now.toNat + 51840) := by
  have hwindow : ANSWER_WINDOW_LEDGERS.toNat = 51840 := rfl
  have hlt := deadline.isLt
  rw [hwindow]
  constructor
  · intro h
    refine ⟨by omega, ?_⟩
    rw [← h, BitVec.ofNat_toNat, BitVec.setWidth_eq]
  · rintro ⟨hmax, rfl⟩
    rw [BitVec.toNat_ofNat, Nat.mod_eq_of_lt (by omega)]

/-- **The accept set.** -/
theorem openDispute_eq_ok_iff (hverifier : s.inst.get .emailVerifier = some emailVerifier)
    {d : Dispute} :
    openDispute asset disputer target evidence invocation s = .ok (d, s') ↔
      ∃ record, Eligible invocation s emailVerifier asset disputer (s.targetOf asset target)
          evidence record ∧
        d = s.newDispute disputer (s.targetOf asset target) evidence ∧
        s' = (s.save (.dispute asset (s.targetOf asset target) evidence.identifier) d).move
          disputer H.currentContract DISPUTE_DEPOSIT_STROOPS := by
  rw [openDispute_eq_ok]
  constructor
  · rintro ⟨registered, record, recorded, ⟨notBefore, recent⟩, proven, fresh, deadline, exact,
      auth, ⟨funded, accepted⟩, rfl, rfl⟩
    obtain ⟨hmax, hdeadline⟩ := deadline_iff.mp exact
    refine ⟨record, ?_, by rw [hdeadline]; rfl, rfl⟩
    exact { registered, recorded, fresh, auth, accepted
            notBefore := notBefore
            recent := (recent_iff notBefore).mp recent
            deadline := hmax
            evidenced := (proves_iff hverifier).mp proven
            funded := funded }
  · rintro ⟨record, h, rfl, rfl⟩
    exact ⟨h.registered, record, h.recorded, ⟨h.notBefore, (recent_iff h.notBefore).mpr h.recent⟩,
      (proves_iff hverifier).mpr h.evidenced, h.fresh, _, deadline_iff.mpr ⟨h.deadline, rfl⟩,
      h.auth, ⟨h.funded, h.accepted⟩, rfl, rfl⟩

/-- A new dispute is written, and nothing else is but the transfer. -/
theorem openedOnly_save {d : Dispute} {identifier : U256} :
    OpenedOnly H s ((s.save (.dispute asset targetId identifier) d).move disputer
      H.currentContract DISPUTE_DEPOSIT_STROOPS) asset disputer targetId identifier d where
  stored := by simp
  others k hk := by
    rw [State.move_persistent, State.save, State.extendContract_persistent,
      State.extendEntry_persistent, Store.entry_extendTtl_of_ne _ _ _ _ hk, State.put_persistent,
      Store.entry_put_of_ne _ _ _ hk]
  native := by
    rw [State.move_native, State.save_native, deposit_val]
  inst := by simp
  ledger := by simp
  events := by simp
  instLiveUntil := by simp

end

namespace RegistryRun
variable {H : Host} (run : RegistryRun H)

/-- **Dispute eligibility.**  In every reachable state, at every ledger, a dispute opens
exactly for the eligible, against the newest record where no target is named; a call
that succeeds stores the record that it answers and moves the deposit, and a call
that fails changes nothing. -/
theorem openDispute_exact (t : Nat) (ledger : LedgerInfo) (invocation : Invocation H)
    (asset disputer : Address) (target : Option U64) (evidence : DisputeEvidence) :
    let s := { run.state t with ledger }
    let targetId := target.getD (s.attestationCount asset)
    let call := openDispute asset disputer target evidence
    (∀ id, (s.get (.attestation asset id)).isSome ↔
      1 ≤ id.toNat ∧ id.toNat ≤ (s.attestationCount asset).toNat) ∧
    ∃ emailVerifier, s.inst.get .emailVerifier = some emailVerifier ∧
      ((∃ d s', call invocation s = .ok (d, s')) ↔
        ∃ record, Eligible invocation s emailVerifier asset disputer targetId evidence record) ∧
      (∀ d s', call invocation s = .ok (d, s') →
        d = s.newDispute disputer targetId evidence ∧
        OpenedOnly H s s' asset disputer targetId evidence.identifier d) ∧
      ∀ fault, call invocation s = .error fault → call.commit invocation s = s := by
  intro s targetId call
  -- the verifier is set at the deployment, and nothing writes it again
  obtain ⟨-, -, -, emailVerifier, hfirst⟩ := Deployed.spec run.first_start
  have hverifier : s.inst.get .emailVerifier = some emailVerifier := by
    change (run.state t).inst.get .emailVerifier = some emailVerifier
    rw [run.inst_eq t]
    exact hfirst
  refine ⟨(run.historyInvariant asset t).exists_iff, emailVerifier, hverifier, ?_, ?_,
    fun fault h => Tx.commit_of_error h⟩
  · constructor
    · rintro ⟨d, s', h⟩
      obtain ⟨record, heligible, -⟩ := (openDispute_eq_ok_iff hverifier).mp h
      exact ⟨record, heligible⟩
    · rintro ⟨record, heligible⟩
      exact ⟨_, _, (openDispute_eq_ok_iff hverifier).mpr ⟨record, heligible, rfl, rfl⟩⟩
  · intro d s' h
    obtain ⟨record, -, hd, rfl⟩ := (openDispute_eq_ok_iff hverifier).mp h
    exact ⟨hd, openedOnly_save⟩

end RegistryRun
end ZkPoR
