import ZkPoR.AttestationHistory
import ZkPoR.EntryAuthorisation

/-! # Reserve observations

An observation compares the reserves with the newest attestation of the current
reserve set.  It reads that attestation through the history counter and not from
the slot, so its meaning rests on the history invariant.  The first observation
below the attested sum stays on record: `ObservationInvariant` says that it is
the least such identifier, whatever follows.
-/
namespace ZkPoR
open ByteString CheckedInt TypedStore Transaction TransitionSystem NumberedLog

/-- The observation is below the attested sum. -/
def State.LowAt (s : State) (asset : Address) (id : U64) : Prop :=
  ∃ o, s.get (.observation asset id) = some o ∧ o.belowAttested = true

/-- **The counter, the records, and the first low observation of one asset.** -/
structure ObservationInvariant (asset : Address) (s : State) : Prop where
  /-- Records exist exactly for the identifiers from one to the counter. -/
  exists_iff : ∀ id : U64, (s.get (.observation asset id)).isSome ↔
    1 ≤ id.toNat ∧ id.toNat ≤ (s.observationStatus asset).observationCount.toNat
  matching : ∀ id o, s.get (.observation asset id) = some o → o.observationId = id
  /-- No first low observation means no low observation. -/
  none_low : (s.observationStatus asset).firstLowObservation = none →
    ∀ id, ¬ s.LowAt asset id
  /-- The first low observation is low, and none before it is. -/
  first_low : ∀ i, (s.observationStatus asset).firstLowObservation = some i →
    s.LowAt asset i ∧ ∀ j, s.LowAt asset j → i.toNat ≤ j.toNat

section Steps
variable {H : Host} {invocation : Invocation H} {op : Op} {s s' : State} {asset : Address}

theorem ObservationInvariant.numbered (hi : ObservationInvariant asset s) :
    Numbered (fun id => s.get (.observation asset id))
      (s.observationStatus asset).observationCount := hi.exists_iff

theorem ObservationInvariant.none_iff (hi : ObservationInvariant asset s) :
    (s.observationStatus asset).firstLowObservation = none ↔ ∀ id, ¬ s.LowAt asset id := by
  refine ⟨hi.none_low, fun h => ?_⟩
  cases hfirst : (s.observationStatus asset).firstLowObservation with
  | none => rfl
  | some i => exact absurd (hi.first_low i hfirst).1 (h i)

theorem ObservationInvariant.of_deployed (h : Deployed H s) : ObservationInvariant asset s where
  exists_iff id := by simp [h.get, State.observationStatus]; omega
  matching id o ho := by simp [h.get] at ho
  none_low _ id := by simp [h.get, State.LowAt]
  first_low i hi := by simp [h.get, State.observationStatus] at hi

theorem ObservationInvariant.congr (hi : ObservationInvariant asset s)
    (hstatus : s'.get (.observationStatus asset) = s.get (.observationStatus asset))
    (hrecords : ∀ id, s'.get (.observation asset id) = s.get (.observation asset id)) :
    ObservationInvariant asset s' := by
  have hn : s'.observationStatus asset = s.observationStatus asset := by
    rw [State.observationStatus, State.observationStatus, hstatus]
  have hlow : ∀ id, s'.LowAt asset id ↔ s.LowAt asset id := fun id => by
    rw [State.LowAt, State.LowAt, hrecords]
  constructor
  · intro id
    rw [hrecords, hn]
    exact hi.exists_iff id
  · intro id o ho
    exact hi.matching id o (hrecords id ▸ ho)
  · intro hnone id
    rw [hlow]
    exact hi.none_low (hn ▸ hnone) id
  · intro i hsome
    obtain ⟨hfirst, hleast⟩ := hi.first_low i (hn ▸ hsome)
    exact ⟨(hlow i).mpr hfirst, fun j hj => hleast j ((hlow j).mp hj)⟩

/-- Only an observation writes the observations of its asset. -/
theorem Effect.observation_frame (h : Effect invocation s op s')
    (hop : op ≠ .observeReserves asset) :
    s'.get (.observationStatus asset) = s.get (.observationStatus asset) ∧
      ∀ id, s'.get (.observation asset id) = s.get (.observation asset id) := by
  refine ⟨h.get_of_not_writes ?_, fun id => h.get_of_not_writes ?_⟩ <;>
    cases op <;> grind [Op.writes]

/-- The counter, the records, and the first low observation after an observation. -/
theorem Effect.observe_spec (h : Effect invocation s (.observeReserves asset) s') :
    ∃ entry o, s.get (.asset asset) = some entry ∧
      o.observationId.toNat = (s.observationStatus asset).observationCount.toNat + 1 ∧
      o.reserveSetHash = entry.reserveSetHash ∧
      Baseline s asset o.observedSum entry.attestation o.attestationId o.belowAttested ∧
      s'.observationStatus asset =
        (s.observationStatus asset).observe o.observationId o.belowAttested ∧
      s'.get (.observation asset o.observationId) = some o ∧
      ∀ j, j ≠ o.observationId →
        s'.get (.observation asset j) = s.get (.observation asset j) := by
  cases h with
  | @observeReserves _ entry o registered next summed observedNow currentSet compared =>
    refine ⟨entry, o, registered, next, currentSet, compared, ?_, ?_, fun j hj => ?_⟩
    · simp [State.observationStatus]
    · simp [State.get_record_fst]
    · simp [State.get_record_of_ne, hj]

/-- An observation keeps the invariant. -/
theorem ObservationInvariant.observe (hi : ObservationInvariant asset s)
    (h : Effect invocation s (.observeReserves asset) s') : ObservationInvariant asset s' := by
  obtain ⟨entry, o, -, hnext, -, -, hstatus, hnew, hold⟩ := h.observe_spec
  -- the new identifier is above every stored one
  have hfresh : ∀ {j}, s.LowAt asset j → j.toNat < o.observationId.toNat := by
    rintro j ⟨p, hp, -⟩
    have := ((hi.exists_iff j).mp (by simp [hp])).2
    omega
  have hkeep : ∀ {j}, j.toNat < o.observationId.toNat → (s'.LowAt asset j ↔ s.LowAt asset j) := by
    intro j hj
    have hne : j ≠ o.observationId := by
      rintro rfl
      omega
    rw [State.LowAt, State.LowAt, hold j hne]
  have hlow : ∀ {j}, s'.LowAt asset j →
      s.LowAt asset j ∨ (j = o.observationId ∧ o.belowAttested = true) := by
    rintro j ⟨p, hp, hbelow⟩
    by_cases hj : j = o.observationId
    · subst hj
      obtain rfl : o = p := Option.some.inj (hnew.symm.trans hp)
      exact .inr ⟨rfl, hbelow⟩
    · exact .inl ⟨p, hold j hj ▸ hp, hbelow⟩
  constructor
  · have hnumbered : Numbered (fun id => s'.get (.observation asset id)) o.observationId :=
      hi.numbered.append hnext (by simp [hnew]) hold
    rw [hstatus]
    exact hnumbered
  · intro j p hp
    by_cases hj : j = o.observationId
    · subst hj
      rw [Option.some.inj (hnew.symm.trans hp)]
    · exact hi.matching j p (hold j hj ▸ hp)
  · intro hnone j hj
    rw [hstatus, ObservationStatus.observe] at hnone
    dsimp only at hnone
    split at hnone
    · cases hnone
    rename_i hcond
    rcases hlow hj with hj | ⟨-, hbelow⟩
    · exact hi.none_low hnone j hj
    · exact hcond ⟨hbelow, hnone⟩
  · intro i hfirst
    rw [hstatus, ObservationStatus.observe] at hfirst
    dsimp only at hfirst
    split at hfirst
    · rename_i hcond
      obtain rfl := Option.some.inj hfirst
      refine ⟨⟨o, hnew, hcond.1⟩, fun j hj => ?_⟩
      rcases hlow hj with hj | ⟨rfl, -⟩
      · exact absurd hj (hi.none_low hcond.2 j)
      · exact le_refl _
    · obtain ⟨hlowi, hleast⟩ := hi.first_low i hfirst
      refine ⟨(hkeep (hfresh hlowi)).mpr hlowi, fun j hj => ?_⟩
      rcases hlow hj with hj | ⟨rfl, -⟩
      · exact hleast j hj
      · exact (hfresh hlowi).le

/-- **Every call keeps the observation invariant.** -/
theorem ObservationInvariant.step (h : Effect invocation s op s')
    (hi : ObservationInvariant asset s) : ObservationInvariant asset s' := by
  by_cases hop : op = .observeReserves asset
  · subst hop
    exact hi.observe h
  · obtain ⟨hstatus, hrecords⟩ := h.observation_frame hop
    exact hi.congr hstatus hrecords

/-- A reserve sum fails for a balance that does not read, or for the sum. -/
theorem reserveSumFrom_eq_error {balance : Address → Option I128} {reserves : List Address}
    {total : I128} {reason : Error} (h : reserveSumFrom balance total reserves = .error reason) :
    reason = .reserveBalanceUnavailable ∨ reason = .reserveSumOverflow := by
  induction reserves generalizing total with
  | nil => cases h
  | cons reserve reserves ih =>
    rw [reserveSumFrom] at h
    split at h
    · exact .inl (Except.error.inj h).symm
    · split at h
      · exact .inr (Except.error.inj h).symm
      · exact ih h

/-- The comparison of an observation finds its attestation. -/
theorem HistoryInvariant.baseline_ne_error (hi : HistoryInvariant H asset s) {entry : AssetEntry}
    (hentry : s.get (.asset asset) = some entry) {observedSum : I128} {fault : Fault} :
    baseline asset observedSum entry.attestation invocation s ≠ .error fault := by
  intro h
  cases hslot : entry.attestation with
  | empty => simp [hslot, baseline] at h
  | filled a =>
    obtain ⟨-, hrecord, -⟩ := hi.slot entry a hentry hslot
    have hok : baseline asset observedSum (.filled a) invocation s =
        .ok ((some (s.attestationCount asset), decide (observedSum.val < a.reserveSum.val)), s) :=
      baseline_eq_ok.mpr ⟨⟨a, hrecord, rfl, rfl⟩, rfl⟩
    rw [hslot, hok] at h
    cases h

/-- With a consistent history, no observation misses its attestation. -/
theorem HistoryInvariant.observeReserves_ne (hi : HistoryInvariant H asset s) :
    observeReserves asset invocation s ≠ .error (.error .attestationNotFound) := by
  intro h
  obtain ⟨entry, hentry, -, hsum | ⟨sum, -, hbase⟩⟩ :
      ∃ entry, s.get (.asset asset) = some entry ∧
        (∃ id, checkedAdd (s.observationStatus asset).observationCount 1 = some id) ∧
        (reserveSumFrom (invocation.balance asset) 0 entry.reserves =
            .error .attestationNotFound ∨
          ∃ sum, reserveSumFrom (invocation.balance asset) 0 entry.reserves = .ok sum ∧
            baseline asset sum entry.attestation invocation s =
              .error (.error .attestationNotFound)) := by
    simpa [observeReserves, status, reserveSum, State.observationStatus] using h
  · rcases reserveSumFrom_eq_error hsum with h | h <;> cases h
  · exact hi.baseline_ne_error hentry hbase

end Steps

/-! ## Observations over a whole run -/

namespace RegistryRun
variable {H : Host} (run : RegistryRun H) {asset : Address}

theorem observationInvariant (asset : Address) (t : Nat) :
    ObservationInvariant asset (run.state t) :=
  run.invariant (fun _ h => .of_deployed h)
    (fun _ _ hq hi => hi.congr (hq.get _) fun _ => hq.get _) (fun h hi => hi.step h) t

/-- No step changes or removes an observation. -/
theorem observation_step {t : Nat} {id : U64} {o : ReserveObservation}
    (h : (run.state t).get (.observation asset id) = some o) :
    (run.state (t + 1)).get (.observation asset id) = some o := by
  rcases run.step t with ⟨invocation, op, hcall⟩ | hquiet
  · rcases hcall.effect.get_eq_or_writes (.observation asset id) with heq | hwrites
    · rw [heq, h]
    · -- a written identifier is fresh, and this one is not
      have hle := (((run.observationInvariant asset t).exists_iff id).mp (by simp [h])).2
      cases op <;> simp [Op.writes] at hwrites
      obtain ⟨hnext, rfl⟩ := hwrites
      omega
  · rw [hquiet.get, h]

theorem observation_stable {t u : Nat} (htu : t ≤ u) {id : U64} {o : ReserveObservation}
    (h : (run.state t).get (.observation asset id) = some o) :
    (run.state u).get (.observation asset id) = some o :=
  Run.stable run (P := fun s => s.get (.observation asset id) = some o)
    (fun _ => run.observation_step) htu h

/-- The first low observation stays. -/
theorem firstLow_stable {t u : Nat} (htu : t ≤ u) {i : U64}
    (h : ((run.state t).observationStatus asset).firstLowObservation = some i) :
    ((run.state u).observationStatus asset).firstLowObservation = some i := by
  refine Run.stable run (P := fun s => (s.observationStatus asset).firstLowObservation = some i)
    (fun v hv => ?_) htu h
  rcases run.step v with ⟨invocation, op, hcall⟩ | hquiet
  · by_cases hop : op = .observeReserves asset
    · subst hop
      obtain ⟨_, o, _, _, _, _, hstatus, _⟩ := hcall.effect.observe_spec
      simp [hstatus, ObservationStatus.observe, hv]
    · rw [State.observationStatus, (hcall.effect.observation_frame hop).1]
      exact hv
  · rw [State.observationStatus, hquiet.get]
    exact hv

/-- **The call that took an observation.**  It names an attestation exactly when
the entry held one, and then it names the newest record, which is for the reserve
set of the observation, and compares with its sum. -/
structure ObservedBy (asset : Address) (id : U64) (o : ReserveObservation) (u : Nat)
    (invocation : Invocation H) (entry : AssetEntry) : Prop where
  call : run.Calls u invocation (.observeReserves asset)
  fresh : (run.state u).get (.observation asset id) = none
  stored : (run.state (u + 1)).get (.observation asset id) = some o
  registered : (run.state u).get (.asset asset) = some entry
  currentSet : o.reserveSetHash = entry.reserveSetHash
  none_iff : o.attestationId = none ↔ entry.attestation = .empty
  none_low : o.attestationId = none → o.belowAttested = false
  newest : ∀ k, o.attestationId = some k → ∃ a, entry.attestation = .filled a ∧
    (run.state u).get (.attestation asset k) = some a ∧
    (∀ j, ((run.state u).get (.attestation asset j)).isSome → j.toNat ≤ k.toNat) ∧
    contextHash H.poseidon2 entry.authority asset o.reserveSetHash a.snapshotLedger =
      .ok a.contextHash ∧
    (o.belowAttested = true ↔ o.observedSum.val < a.reserveSum.val)

theorem observedBy_of_onset {u : Nat} {id : U64} {o : ReserveObservation}
    (hbefore : (run.state u).get (.observation asset id) ≠ some o)
    (hafter : (run.state (u + 1)).get (.observation asset id) = some o) :
    ∃ invocation entry, run.ObservedBy asset id o u invocation entry := by
  have hne : (run.state (u + 1)).get (.observation asset id) ≠
      (run.state u).get (.observation asset id) := fun h => hbefore (h ▸ hafter)
  obtain ⟨invocation, op, hcall⟩ := run.exists_call_of_ne hne
  have hop : op = .observeReserves asset := by
    by_contra hop
    exact hne ((hcall.effect.observation_frame hop).2 id)
  subst hop
  have hfresh : (run.state u).get (.observation asset id) = none := by
    cases hold : (run.state u).get (.observation asset id) with
    | none => rfl
    | some p => exact absurd ((run.observation_step hold).trans hold.symm) hne
  obtain ⟨entry, p, hentry, _, hset, hbase, _, hnew, hold⟩ := hcall.effect.observe_spec
  obtain rfl : id = p.observationId := by
    by_contra hid
    exact hne (hold id hid)
  obtain rfl : o = p := Option.some.inj (hafter.symm.trans hnew)
  have hhistory := run.historyInvariant asset u
  cases hslot : entry.attestation with
  | empty =>
    rw [hslot] at hbase
    obtain ⟨hnone, hlow⟩ := hbase
    exact ⟨invocation, entry, hcall, hfresh, hafter, hentry, hset, by simp [hnone, hslot],
      fun _ => hlow, fun k hk => absurd (hnone.symm.trans hk) (by simp)⟩
  | filled a =>
    rw [hslot] at hbase
    obtain ⟨b, hb, hsome, hlow⟩ := hbase
    obtain ⟨_, hrecord, hcontext⟩ := hhistory.slot entry a hentry hslot
    obtain rfl : a = b := Option.some.inj (hrecord.symm.trans hb)
    refine ⟨invocation, entry, hcall, hfresh, hafter, hentry, hset, by simp [hsome, hslot],
      fun hnone => absurd (hnone.symm.trans hsome) (by simp), fun k hk => ?_⟩
    obtain rfl : (run.state u).attestationCount asset = k :=
      Option.some.inj (hsome.symm.trans hk)
    exact ⟨a, hslot, hrecord, fun j hj => ((hhistory.exists_iff j).mp hj).2, hset ▸ hcontext,
      by simp [hlow]⟩

theorem exists_observedBy {t : Nat} {id : U64} {o : ReserveObservation}
    (h : (run.state t).get (.observation asset id) = some o) :
    ∃ u < t, ∃ invocation entry, run.ObservedBy asset id o u invocation entry := by
  obtain ⟨u, hut, hafter, hne, -⟩ := run.exists_write h
  have hbefore : (run.state u).get (.observation asset id) ≠ _ := fun heq => hne (hafter.trans heq.symm)
  exact ⟨u, hut, run.observedBy_of_onset hbefore hafter⟩

/-- **The observations of one asset over a run.** -/
structure ReserveObservations (asset : Address) : Prop where
  invariant : ∀ t, ObservationInvariant asset (run.state t)
  none_iff : ∀ t, ((run.state t).observationStatus asset).firstLowObservation = none ↔
    ∀ id, ¬ (run.state t).LowAt asset id
  unchanged : ∀ t u id o, t ≤ u → (run.state t).get (.observation asset id) = some o →
    (run.state u).get (.observation asset id) = some o
  observed : ∀ t id o, (run.state t).get (.observation asset id) = some o →
    ∃ u < t, ∃ invocation entry, run.ObservedBy asset id o u invocation entry
  sticky : ∀ t u i, t ≤ u →
    ((run.state t).observationStatus asset).firstLowObservation = some i →
    ((run.state u).observationStatus asset).firstLowObservation = some i
  neverMissing : ∀ t (invocation : Invocation H),
    observeReserves asset invocation (run.state t) ≠ .error (.error .attestationNotFound)

/-- **The observations hold, from the deployment on, for every asset.** -/
theorem reserve_observations (run : RegistryRun H) (asset : Address) :
    run.ReserveObservations asset where
  invariant := run.observationInvariant asset
  none_iff t := (run.observationInvariant asset t).none_iff
  unchanged _ _ _ _ htu h := run.observation_stable htu h
  observed _ _ _ h := run.exists_observedBy h
  sticky _ _ _ htu h := run.firstLow_stable htu h
  neverMissing t _ := (run.historyInvariant asset t).observeReserves_ne

end RegistryRun
end ZkPoR
