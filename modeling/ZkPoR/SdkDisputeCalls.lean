import ZkPoR.RegistryEffect
import ZkPoR.SdkDisputes

/-! # The dispute calls of the SDK

What `disputes.ts` asks of the registry: the checks of its three writing functions, and
the call that each of them signs.  A value that passes the checks survives the encoding,
so the contract sees the numbers of the caller (`inclusionValue_eq_ok`).
-/
namespace ZkPoR.Sdk
open CheckedInt BoundedLoop JsonText JavaScript

/-! ## The arguments -/

inductive DisputeOpening
  | inclusion (attestationId : Nat) (inclusion : InclusionEvidence)
  | email (keyId id : Nat) (proof : ByteString.Bytes)

def positiveU64 (value : Nat) (name : String) : Except String Unit :=
  check (¬ (value < 1 ∨ value > MAX_U64)) s!"{name} must be a positive u64"

/-- The evidence as the contract reads it. -/
def InclusionEvidence.scVal (evidence : InclusionEvidence) : ZkPoR.InclusionEvidence where
  id := BitVec.ofNat 256 evidence.id
  commitment := BitVec.ofNat 256 evidence.commitment
  path := evidence.path.map (BitVec.ofNat 256)
  position := BitVec.ofNat 32 evidence.position

def inclusionValue (evidence : InclusionEvidence) : Except String ZkPoR.InclusionEvidence := do
  validateInclusionEvidence evidence
  return evidence.scVal

def openingValue : DisputeOpening → Except String DisputeEvidence
  | .inclusion attestationId evidence => do
    positiveU64 attestationId "the evidence ID"
    let inclusion ← inclusionValue evidence
    return .inclusion { attestationId := BitVec.ofNat 64 attestationId, inclusion }
  | .email keyId id proof => do
    positiveU64 keyId "the email key ID"
    validIdentifier id
    check (proof ≠ []) "the email proof carries no bytes"
    return .email { keyId := BitVec.ofNat 64 keyId, id := BitVec.ofNat 256 id, proof }

/-- The evidence attestation of an opening is older than the target. -/
def olderEvidence (targetId : Nat) : DisputeOpening → Except String Unit
  | .inclusion attestationId _ =>
    check (¬ attestationId ≥ targetId) "the evidence attestation must be older than the target"
  | .email _ _ _ => .ok ()

/-! ## The calls -/

/-- Opens a dispute.  The disputer is the signer who pays the native-token deposit. -/
def openDispute (asset signer : Address) (targetId : Nat) (opening : DisputeOpening) :
    Except String Op := do
  positiveU64 targetId "the target ID"
  olderEvidence targetId opening
  let evidence ← openingValue opening
  return .openDispute asset signer (some (BitVec.ofNat 64 targetId)) evidence

/-- Answers a fixed dispute. -/
def answerDispute (asset : Address) (targetId : Nat) (evidence : InclusionEvidence) :
    Except String Op := do
  positiveU64 targetId "the target ID"
  let evidence ← inclusionValue evidence
  return .answerDispute asset (BitVec.ofNat 64 targetId) evidence

/-- Resolves an unanswered dispute after its contract deadline. -/
def resolveDispute (asset : Address) (targetId identifier : Nat) : Except String Op := do
  positiveU64 targetId "the target ID"
  validIdentifier identifier
  return .resolveDispute asset (BitVec.ofNat 64 targetId) (BitVec.ofNat 256 identifier)

/-! ## What the checks take -/

theorem positiveU64_eq_ok {value : Nat} {name : String} {u : Unit} :
    positiveU64 value name = .ok u ↔ 1 ≤ value ∧ value ≤ MAX_U64 := by
  rw [positiveU64, check_eq_ok, not_or, Nat.not_lt]
  exact and_congr_right fun _ => Nat.not_lt

theorem positiveU64_toNat {id : U64} {name : String} (h : 1 ≤ id.toNat) :
    positiveU64 id.toNat name = .ok () :=
  positiveU64_eq_ok.mpr ⟨h, Nat.le_pred_of_lt id.isLt⟩

theorem inclusionValue_eq_ok {e : InclusionEvidence} {argument : ZkPoR.InclusionEvidence} :
    inclusionValue e = .ok argument ↔ e.Valid ∧ argument = e.scVal := by
  simp only [inclusionValue, bind_eq_ok, validateInclusionEvidence_eq_ok]
  constructor
  · rintro ⟨_, hvalid, hout⟩
    cases hout
    exact ⟨hvalid, rfl⟩
  · rintro ⟨hvalid, rfl⟩
    exact ⟨(), hvalid, rfl⟩

theorem answerDispute_of_valid {e : InclusionEvidence} (h : e.Valid) {asset : Address}
    {targetId : U64} (hpos : 1 ≤ targetId.toNat) :
    answerDispute asset targetId.toNat e = .ok (.answerDispute asset targetId e.scVal) := by
  rw [answerDispute, positiveU64_toNat hpos]
  refine bind_eq_ok.mpr ⟨(), rfl, bind_eq_ok.mpr ⟨_, inclusionValue_eq_ok.mpr ⟨h, rfl⟩, ?_⟩⟩
  rw [BitVec.ofNat_toNat, BitVec.setWidth_eq]
  rfl

theorem map_ofNat_toNat (path : List U256) :
    (path.map BitVec.toNat).map (BitVec.ofNat 256) = path := by
  rw [List.map_map]
  refine (List.map_congr_left fun x _ => ?_).trans (List.map_id' path)
  rw [Function.comp_apply, BitVec.ofNat_toNat, BitVec.setWidth_eq]

/-- The evidence with the numbers of a contract evidence. -/
def InclusionEvidence.ofScVal (e : ZkPoR.InclusionEvidence) : InclusionEvidence where
  id := e.id.toNat
  commitment := e.commitment.toNat
  path := e.path.map BitVec.toNat
  position := e.position.toNat

theorem scVal_ofScVal (e : ZkPoR.InclusionEvidence) : (InclusionEvidence.ofScVal e).scVal = e := by
  simp only [InclusionEvidence.ofScVal, InclusionEvidence.scVal, map_ofNat_toNat,
    BitVec.ofNat_toNat, BitVec.setWidth_eq]

/-- The numbers of a valid evidence reach the contract. -/
theorem InclusionEvidence.Valid.scVal {e : InclusionEvidence} (h : e.Valid) :
    e.scVal.id.toNat = e.id ∧ e.scVal.commitment.toNat = e.commitment ∧
      e.scVal.path.map BitVec.toNat = e.path ∧ e.scVal.position.toNat = e.position := by
  refine ⟨toNat_ofNat_of_lt h.id, toNat_ofNat_of_lt h.commitment, ?_, ?_⟩
  · have hpath : ∀ sibling ∈ e.path, (BitVec.ofNat 256 sibling).toNat = sibling :=
      fun sibling hsibling => toNat_ofNat_of_lt (h.path sibling hsibling)
    rw [InclusionEvidence.scVal, List.map_map]
    exact (List.map_congr_left hpath).trans (List.map_id' e.path)
  · have := h.position
    change (BitVec.ofNat 32 e.position).toNat = _
    rw [BitVec.toNat_ofNat, Nat.mod_eq_of_lt h.position]

end ZkPoR.Sdk
