import ZkPoR.DisputeReading

/-! # What a client of the disputes can ask

The client checks the values of a call before it signs it, and the registry checks the call
again.  What the client sends has the numbers of its caller (`openDispute_eq_ok`), and it
refuses no call that the registry takes, an email proof without bytes apart
(`RegistryRun.client_opens`, `RegistryRun.client_resolves`).  A package that the customer
check accepts is evidence under the attested root (`Accepts.inclusion`).
-/
namespace ZkPoR.Sdk
open CheckedInt BoundedLoop JsonText

/-! ## The calls of the client -/

/-- The evidence of an opening, as the contract reads it. -/
def DisputeOpening.evidence : DisputeOpening → DisputeEvidence
  | inclusion attestationId e =>
    .inclusion { attestationId := BitVec.ofNat 64 attestationId, inclusion := e.scVal }
  | email keyId id proof =>
    .email { keyId := BitVec.ofNat 64 keyId, id := BitVec.ofNat 256 id, proof }

/-- What the client asks of an opening against one target. -/
def DisputeOpening.Valid (targetId : Nat) : DisputeOpening → Prop
  | inclusion attestationId e =>
    1 ≤ attestationId ∧ attestationId ≤ MAX_U64 ∧ attestationId < targetId ∧ e.Valid
  | email keyId id proof =>
    1 ≤ keyId ∧ keyId ≤ MAX_U64 ∧ id ≠ PADDING_LEAF_ID ∧ id < frModulus ∧ proof ≠ []

theorem validIdentifier_eq_ok {id : Nat} {u : Unit} :
    validIdentifier id = .ok u ↔ id ≠ PADDING_LEAF_ID ∧ id < frModulus := by
  rw [validIdentifier, check_eq_ok, not_or, not_not]
  exact Iff.rfl

theorem openingValue_eq_ok {targetId : Nat} {opening : DisputeOpening}
    {argument : DisputeEvidence} :
    (∃ u, olderEvidence targetId opening = .ok u ∧ openingValue opening = .ok argument) ↔
      opening.Valid targetId ∧ argument = opening.evidence := by
  cases opening with
  | inclusion attestationId e =>
    simp only [olderEvidence, openingValue, bind_eq_ok, check_eq_ok, positiveU64_eq_ok,
      inclusionValue_eq_ok, DisputeOpening.Valid, Nat.not_le, ge_iff_le]
    constructor
    · rintro ⟨_, hlt, _, ⟨hpos, hle⟩, _, ⟨hvalid, rfl⟩, hout⟩
      cases hout
      exact ⟨⟨hpos, hle, hlt, hvalid⟩, rfl⟩
    · rintro ⟨⟨hpos, hle, hlt, hvalid⟩, rfl⟩
      exact ⟨(), hlt, (), ⟨hpos, hle⟩, _, ⟨hvalid, rfl⟩, rfl⟩
  | email keyId id proof =>
    simp only [olderEvidence, openingValue, bind_eq_ok, check_eq_ok, positiveU64_eq_ok,
      validIdentifier_eq_ok, DisputeOpening.Valid]
    constructor
    · rintro ⟨_, -, _, ⟨hpos, hle⟩, _, ⟨hne, hrange⟩, _, hproof, hout⟩
      cases hout
      exact ⟨⟨hpos, hle, hne, hrange, hproof⟩, rfl⟩
    · rintro ⟨⟨hpos, hle, hne, hrange, hproof⟩, rfl⟩
      exact ⟨(), trivial, (), ⟨hpos, hle⟩, (), ⟨hne, hrange⟩, (), hproof, rfl⟩

/-- **What the client sends has the numbers of the caller.** -/
theorem openDispute_eq_ok {asset signer : Address} {targetId : Nat} {opening : DisputeOpening}
    {op : Op} :
    openDispute asset signer targetId opening = .ok op ↔
      1 ≤ targetId ∧ targetId ≤ MAX_U64 ∧ opening.Valid targetId ∧
        op = .openDispute asset signer (some (BitVec.ofNat 64 targetId)) opening.evidence := by
  simp only [openDispute, bind_eq_ok, positiveU64_eq_ok]
  constructor
  · rintro ⟨_, ⟨hpos, hle⟩, _, holder, argument, hargument, hout⟩
    cases hout
    obtain ⟨hvalid, rfl⟩ := openingValue_eq_ok.mp ⟨_, holder, hargument⟩
    exact ⟨hpos, hle, hvalid, rfl⟩
  · rintro ⟨hpos, hle, hvalid, rfl⟩
    obtain ⟨_, holder, hargument⟩ := openingValue_eq_ok.mpr ⟨hvalid, rfl⟩
    exact ⟨(), ⟨hpos, hle⟩, _, holder, _, hargument, rfl⟩

theorem resolveDispute_eq_ok {asset : Address} {targetId identifier : Nat} {op : Op} :
    resolveDispute asset targetId identifier = .ok op ↔
      1 ≤ targetId ∧ targetId ≤ MAX_U64 ∧ identifier ≠ PADDING_LEAF_ID ∧
        identifier < frModulus ∧
        op = .resolveDispute asset (BitVec.ofNat 64 targetId) (BitVec.ofNat 256 identifier) := by
  simp only [resolveDispute, bind_eq_ok, positiveU64_eq_ok, validIdentifier_eq_ok]
  constructor
  · rintro ⟨_, ⟨hpos, hle⟩, _, ⟨hne, hrange⟩, hout⟩
    cases hout
    exact ⟨hpos, hle, hne, hrange, rfl⟩
  · rintro ⟨hpos, hle, hne, hrange, rfl⟩
    exact ⟨(), ⟨hpos, hle⟩, (), ⟨hne, hrange⟩, rfl⟩

/-! ## The numbers of an evidence -/

/-- What the contract takes as evidence passes the checks of the client. -/
theorem valid_of_inclusion {poseidon2 : List Fr → Fr} {root : U256} {e : ZkPoR.InclusionEvidence}
    (h : inclusion poseidon2 root e = .ok ()) : (InclusionEvidence.ofScVal e).Valid := by
  obtain ⟨-, hposition, hne, hid, hcommitment, hpath, -⟩ := inclusion_eq_ok.mp h
  exact {
    idNonzero := fun hzero => hne (BitVec.eq_of_toNat_eq hzero)
    id := hid
    commitment := hcommitment
    path := fun sibling hsibling => by
      obtain ⟨x, hx, rfl⟩ := List.mem_map.mp hsibling
      exact hpath x hx
    position := hposition.trans (by decide) }

def DisputeOpening.ofEvidence : DisputeEvidence → DisputeOpening
  | .inclusion opening => .inclusion opening.attestationId.toNat (.ofScVal opening.inclusion)
  | .email e => .email e.keyId.toNat e.id.toNat e.proof

theorem evidence_ofEvidence (evidence : DisputeEvidence) :
    (DisputeOpening.ofEvidence evidence).evidence = evidence := by
  cases evidence with
  | inclusion opening =>
    simp only [DisputeOpening.ofEvidence, DisputeOpening.evidence, scVal_ofScVal,
      BitVec.ofNat_toNat, BitVec.setWidth_eq]
  | email e =>
    simp only [DisputeOpening.ofEvidence, DisputeOpening.evidence, BitVec.ofNat_toNat,
      BitVec.setWidth_eq]

end ZkPoR.Sdk

namespace ZkPoR
open CheckedInt BoundedLoop TypedStore Transaction TransitionSystem

/-- Evidence that the registry takes passes the checks of the client. -/
theorem Proves.opening_valid {H : Host} {invocation : Invocation H} {s : State} {asset : Address}
    {targetId : U64} {evidence : DisputeEvidence} (hnumbered : Numbered s asset)
    (hproof : ∀ e, evidence = .email e → e.proof ≠ [])
    (h : Proves invocation s asset targetId evidence) :
    (Sdk.DisputeOpening.ofEvidence evidence).Valid targetId.toNat := by
  obtain ⟨hne, hrange, horigin⟩ := h.origin hnumbered
  cases evidence with
  | inclusion opening =>
    obtain ⟨hlt, old, -, hincluded⟩ := h
    exact ⟨horigin, Sdk.toNat_le _, hlt, Sdk.valid_of_inclusion hincluded⟩
  | email e =>
    exact ⟨horigin, Sdk.toNat_le _, fun hzero => hne (BitVec.eq_of_toNat_eq hzero), hrange,
      hproof e rfl⟩

namespace RegistryRun
variable {H : Host} (run : RegistryRun H) {asset : Address} {targetId : U64}

/-- **Every dispute that the registry opens, the client could have opened**, an email proof
without bytes apart. -/
theorem client_opens {t : Nat} {invocation : Invocation H} {disputer : Address}
    {evidence : DisputeEvidence} (hproof : ∀ e, evidence = .email e → e.proof ≠ [])
    (h : run.Calls t invocation (.openDispute asset disputer (some targetId) evidence)) :
    Sdk.openDispute asset disputer targetId.toNat (.ofEvidence evidence) =
      .ok (.openDispute asset disputer (some targetId) evidence) := by
  have heffect := h.effect
  generalize run.state (t + 1) = s' at heffect
  cases heffect with
  | openDispute _ recorded _ _ proven =>
    have hnumbered := run.numbered asset t
    refine Sdk.openDispute_eq_ok.mpr ⟨hnumbered.attestations _ _ recorded, Sdk.toNat_le _,
      proven.opening_valid hnumbered hproof, ?_⟩
    rw [Sdk.evidence_ofEvidence, BitVec.ofNat_toNat, BitVec.setWidth_eq]

/-- **Every stored dispute has a call of the client that resolves it.** -/
theorem client_resolves {t : Nat} {identifier : U256} {d : Dispute}
    (h : (run.state t).get (.dispute asset targetId identifier) = some d) :
    Sdk.resolveDispute asset targetId.toNat identifier.toNat =
      .ok (.resolveDispute asset targetId identifier) := by
  have hwf := run.dispute_wellFormed t h
  refine Sdk.resolveDispute_eq_ok.mpr ⟨hwf.target_pos, Sdk.toNat_le _,
    fun hzero => hwf.identifier_ne (BitVec.eq_of_toNat_eq hzero), hwf.inRange, ?_⟩
  rw [BitVec.ofNat_toNat, BitVec.ofNat_toNat, BitVec.setWidth_eq, BitVec.setWidth_eq]

end RegistryRun

/-! ## The evidence of a package -/

namespace Sdk
open JsonText

/-- **An accepted package is evidence.**  The client takes the leaf and the path of a package
that its check accepts, and the contract takes them under the attested root. -/
theorem Accepts.inclusion {primitives : Primitives} {poseidon2 : List Fr → Fr}
    {packageText deploymentsText : String} {client : Client} {identityText : Option String}
    {entry : InclusionPackage} {generation : Generation} {attestation : StoredAttestation}
    {currentLedger : Nat}
    (h : Accepts primitives poseidon2 packageText deploymentsText client identityText entry
      generation attestation currentLedger)
    (hdepth : generation.treeDepth = 12) {root : U256}
    (hroot : attestation.finalRoot = root.toNat) :
    ∃ e, inclusionEvidenceFromPackage entry = .ok e ∧
      ZkPoR.inclusion poseidon2 root e.scVal = .ok () := by
  obtain ⟨source, -, hpackage⟩ := parsePackage_eq_ok.mp h.reads
  obtain ⟨_, -, hsiblings⟩ := hpackage.siblings
  have hcanonical := canonical_claimOf hpackage
  have hindex : entry.leafIndex < 2 ^ 12 := hdepth ▸ h.index
  have hvalid : InclusionEvidence.Valid
      ⟨entry.id, entry.commitment, entry.siblings, entry.leafIndex⟩ := {
    idNonzero := hpackage.idNonzero
    id := lt_of_isHexField hpackage.id
    commitment := lt_of_isHexField hpackage.commitment
    path := lt_of_forall₂_isHex hsiblings
    position := hpackage.leafIndex.2 }
  have hposition := hvalid.scVal.2.2.2
  refine ⟨_, bind_eq_ok.mpr ⟨(), validateInclusionEvidence_eq_ok.mpr hvalid, rfl⟩,
    inclusion_eq_ok.mpr ⟨?_, ?_, ?_, hcanonical.id, hcanonical.commitment, hcanonical.siblings, ?_⟩⟩
  · change (entry.siblings.map (BitVec.ofNat 256)).length = 12
    rw [List.length_map, h.length, hdepth]
  · rw [hposition]
    exact hindex
  · intro hzero
    have hid := hvalid.scVal.1
    rw [hzero] at hid
    exact hvalid.idNonzero hid.symm
  · rw [hposition]
    refine BitVec.eq_of_toNat_eq (Int.ofNat.inj ?_)
    exact h.root.trans hroot

end Sdk
end ZkPoR
