import ZkPoR.ReserveObservations

/-! # What the registry answers to a reader

The reading functions of `history.rs`, `observations.rs` and `disputes.rs`.  Each one
answers from the state and leaves it alone, so what a reader learns over a run is what the
invariants of the run say of its states: a count never falls, and every record up to
it is there and stays.
-/
namespace ZkPoR
open ByteString CheckedInt TypedStore Transaction TransitionSystem
open Contract

/-- The code of a reason: the source numbers its reasons from one, in this order. -/
def Error.code (reason : Error) : Nat := reason.ctorIdx + 1

section
variable {H : Host}

/-- Returns the last history identifier.  Identifiers start at one. -/
def attestationCount (asset : Address) : Contract H U64 := do
  let stored ← persistentGet (.asset asset)
  refuseIf (stored.isSome = false) .assetNotRegistered
  History.count asset

/-- Returns one permanent attestation. -/
def getAttestation (asset : Address) (id : U64) : Contract H Attestation := History.read asset id

/-- Returns one stored observation.  Identifiers start at one. -/
def getObservation (asset : Address) (id : U64) : Contract H ReserveObservation := do
  let stored ← persistentGet (.observation asset id)
  okOr stored .observationNotFound

/-- Returns the history count and the permanent first low observation. -/
def observationStatus (asset : Address) : Contract H ObservationStatus := do
  let stored ← persistentGet (.asset asset)
  refuseIf (stored.isSome = false) .assetNotRegistered
  status asset

/-- Returns one stored dispute. -/
def getDispute (asset : Address) (targetId : U64) (id : U256) : Contract H Dispute := do
  let stored ← persistentGet (.dispute asset targetId id)
  okOr stored .disputeNotFound

variable {invocation : Invocation H} {s s' : State} {asset : Address} {id : U64}

/-! ## Answers -/

theorem attestationCount_of_registered (h : s.get (.asset asset) ≠ none) :
    attestationCount asset invocation s = .ok (s.attestationCount asset, s) := by
  simp [attestationCount, h]

theorem attestationCount_of_unregistered (h : s.get (.asset asset) = none) :
    attestationCount asset invocation s = .error (.error .assetNotRegistered) := by
  simp [attestationCount, h]

theorem getAttestation_of_get {a : Attestation} (h : s.get (.attestation asset id) = some a) :
    getAttestation asset id invocation s = .ok (a, s) := History.read_eq_ok.mpr ⟨h, rfl⟩

theorem getObservation_of_get {o : ReserveObservation}
    (h : s.get (.observation asset id) = some o) :
    getObservation asset id invocation s = .ok (o, s) := by
  simp [getObservation, h]

theorem observationStatus_of_registered (h : s.get (.asset asset) ≠ none) :
    observationStatus asset invocation s = .ok (s.observationStatus asset, s) := by
  simp [observationStatus, h]

theorem observationStatus_of_unregistered (h : s.get (.asset asset) = none) :
    observationStatus asset invocation s = .error (.error .assetNotRegistered) := by
  simp [observationStatus, h]

theorem getDispute_of_get {targetId : U64} {identifier : U256} {d : Dispute}
    (h : s.get (.dispute asset targetId identifier) = some d) :
    getDispute asset targetId identifier invocation s = .ok (d, s) := by
  simp [getDispute, h]

theorem getDispute_of_none {targetId : U64} {identifier : U256}
    (h : s.get (.dispute asset targetId identifier) = none) :
    getDispute asset targetId identifier invocation s = .error (.error .disputeNotFound) := by
  simp [getDispute, h]

end

/-! ## Over a run -/

/-- What a stored observation satisfies. -/
structure ReserveObservation.WellFormed (o : ReserveObservation) (id : U64) : Prop where
  matching : o.observationId = id
  /-- An observation without a baseline is not low. -/
  none_low : o.attestationId = none → o.belowAttested = false
  positive : ∀ k, o.attestationId = some k → 1 ≤ k.toNat

/-- What a stored status satisfies. -/
def ObservationStatus.WellFormed (status : ObservationStatus) : Prop :=
  ∀ i, status.firstLowObservation = some i →
    1 ≤ i.toNat ∧ i.toNat ≤ status.observationCount.toNat

namespace RegistryRun
variable {H : Host} (run : RegistryRun H) {asset : Address} {t u : Nat}

/-- An asset stays registered. -/
theorem registered_stable (htu : t ≤ u)
    (h : (run.state t).get (.asset asset) ≠ none) : (run.state u).get (.asset asset) ≠ none := by
  obtain ⟨entry, hentry⟩ := Option.ne_none_iff_exists'.mp h
  obtain ⟨entry', hentry', -⟩ := run.entry_stable htu hentry
  exact Option.ne_none_iff_exists'.mpr ⟨entry', hentry'⟩

/-- Every record up to the count is there. -/
theorem exists_attestation {id : U64} (hid : 1 ≤ id.toNat)
    (hcount : id.toNat ≤ ((run.state t).attestationCount asset).toNat) :
    ∃ a, (run.state t).get (.attestation asset id) = some a :=
  Option.isSome_iff_exists.mp (((run.historyInvariant asset t).exists_iff id).mpr ⟨hid, hcount⟩)

/-- The count of the history never falls. -/
theorem attestationCount_mono (htu : t ≤ u) :
    ((run.state t).attestationCount asset).toNat ≤ ((run.state u).attestationCount asset).toNat := by
  by_cases hzero : ((run.state t).attestationCount asset).toNat = 0
  · omega
  · -- the last record is still there
    obtain ⟨a, ha⟩ := run.exists_attestation (Nat.one_le_iff_ne_zero.mpr hzero) (le_refl _)
    have hlater := run.record_stable asset htu ha
    exact (((run.historyInvariant asset u).exists_iff _).mp (by rw [hlater]; rfl)).2

/-- Every observation up to the count is there. -/
theorem exists_observation {id : U64} (hid : 1 ≤ id.toNat)
    (hcount : id.toNat ≤ ((run.state t).observationStatus asset).observationCount.toNat) :
    ∃ o, (run.state t).get (.observation asset id) = some o :=
  Option.isSome_iff_exists.mp
    (((run.observationInvariant asset t).exists_iff id).mpr ⟨hid, hcount⟩)

/-- The count of the observations never falls. -/
theorem observationCount_mono (htu : t ≤ u) :
    ((run.state t).observationStatus asset).observationCount.toNat ≤
      ((run.state u).observationStatus asset).observationCount.toNat := by
  by_cases hzero : ((run.state t).observationStatus asset).observationCount.toNat = 0
  · omega
  · obtain ⟨o, ho⟩ := run.exists_observation (Nat.one_le_iff_ne_zero.mpr hzero) (le_refl _)
    have hlater := run.observation_stable htu ho
    exact (((run.observationInvariant asset u).exists_iff _).mp (by rw [hlater]; rfl)).2

theorem observation_wellFormed {id : U64} {o : ReserveObservation}
    (h : (run.state t).get (.observation asset id) = some o) : o.WellFormed id where
  matching := (run.observationInvariant asset t).matching id o h
  none_low := by
    obtain ⟨u, -, invocation, entry, hobserved⟩ := run.exists_observedBy h
    exact hobserved.none_low
  positive k hk := by
    obtain ⟨u, -, invocation, entry, hobserved⟩ := run.exists_observedBy h
    obtain ⟨a, -, ha, -⟩ := hobserved.newest k hk
    exact (((run.historyInvariant asset u).exists_iff k).mp (by rw [ha]; rfl)).1

theorem status_wellFormed (asset : Address) (t : Nat) :
    ((run.state t).observationStatus asset).WellFormed := by
  intro i hi
  obtain ⟨⟨o, ho, -⟩, -⟩ := (run.observationInvariant asset t).first_low i hi
  exact ((run.observationInvariant asset t).exists_iff i).mp (by rw [ho]; rfl)

end RegistryRun
end ZkPoR
