import ZkPoR.NumberedLog
import ZkPoR.RegistryRun

/-! # The attestation history

The registry keeps the newest attestation of an asset twice: in the slot of the
entry, and as the last record of the history.  A reserve change empties the slot
and leaves the history alone.  `HistoryInvariant` says what the two copies and
the counter have in common, and every call keeps it.
-/
namespace ZkPoR
open ByteString CheckedInt TypedStore Transaction TransitionSystem NumberedLog

/-- What one record satisfies, in exact integers. -/
structure Attestation.WellFormed (a : Attestation) : Prop where
  notBefore : a.snapshotLedger.toNat ≤ a.attestedLedger.toNat
  recent : a.attestedLedger.toNat ≤ a.snapshotLedger.toNat + 720
  inRange : frInRange a.finalRoot

/-- **The slot, the counter, and the records of one asset.** -/
structure HistoryInvariant (H : Host) (asset : Address) (s : State) : Prop where
  /-- Records exist exactly for the identifiers from one to the counter. -/
  exists_iff : ∀ id : U64, (s.get (.attestation asset id)).isSome ↔
    1 ≤ id.toNat ∧ id.toNat ≤ (s.attestationCount asset).toNat
  wellFormed : ∀ id a, s.get (.attestation asset id) = some a → a.WellFormed
  past : ∀ id a, s.get (.attestation asset id) = some a →
    a.attestedLedger.toNat ≤ s.ledger.sequence.toNat
  /-- Attestation ledgers do not fall along the history. -/
  sorted : ∀ i j a b, i.toNat ≤ j.toNat → s.get (.attestation asset i) = some a →
    s.get (.attestation asset j) = some b → a.attestedLedger.toNat ≤ b.attestedLedger.toNat
  /-- A filled slot is the newest record, and its context is the one of the
  current reserve set. -/
  slot : ∀ entry a, s.get (.asset asset) = some entry → entry.attestation = .filled a →
    1 ≤ (s.attestationCount asset).toNat ∧
      s.get (.attestation asset (s.attestationCount asset)) = some a ∧
      contextHash H.poseidon2 entry.authority asset entry.reserveSetHash a.snapshotLedger =
        .ok a.contextHash

section Steps
variable {H : Host} {invocation : Invocation H} {op : Op} {s s' : State} {asset : Address}

theorem HistoryInvariant.numbered (hi : HistoryInvariant H asset s) :
    Numbered (fun id => s.get (.attestation asset id)) (s.attestationCount asset) := hi.exists_iff

theorem HistoryInvariant.of_deployed (h : Deployed H s) : HistoryInvariant H asset s where
  exists_iff id := by simp [h.get, State.attestationCount]; omega
  wellFormed id a ha := by simp [h.get] at ha
  past id a ha := by simp [h.get] at ha
  sorted i j a b _ ha := by simp [h.get] at ha
  slot entry a he := by simp [h.get] at he

/-- The invariant reads the slot, the counter, and the records, and a ledger that
never falls.  An empty slot says nothing. -/
theorem HistoryInvariant.congr (hi : HistoryInvariant H asset s)
    (hslot : ∀ entry, s'.get (.asset asset) = some entry →
      entry.attestation = .empty ∨ s.get (.asset asset) = some entry)
    (hcount : s'.get (.attestationCount asset) = s.get (.attestationCount asset))
    (hrecords : ∀ id, s'.get (.attestation asset id) = s.get (.attestation asset id))
    (hledger : s.ledger.sequence.toNat ≤ s'.ledger.sequence.toNat) :
    HistoryInvariant H asset s' := by
  have hn : s'.attestationCount asset = s.attestationCount asset := by
    rw [State.attestationCount, State.attestationCount, hcount]
  constructor
  · intro id
    rw [hrecords, hn]
    exact hi.exists_iff id
  · intro id a ha
    exact hi.wellFormed id a (hrecords id ▸ ha)
  · intro id a ha
    exact (hi.past id a (hrecords id ▸ ha)).trans hledger
  · intro i j a b hij ha hb
    exact hi.sorted i j a b hij (hrecords i ▸ ha) (hrecords j ▸ hb)
  · intro entry a he ha
    rcases hslot entry he with hempty | hold
    · rw [hempty] at ha
      cases ha
    · rw [hrecords, hn]
      exact hi.slot entry a hold ha

/-- Only an attestation writes the history of its asset. -/
theorem Effect.history_frame (h : Effect invocation s op s')
    (hop : ∀ l r n p, op ≠ .submitAttestation asset l r n p) :
    s'.get (.attestationCount asset) = s.get (.attestationCount asset) ∧
      ∀ id, s'.get (.attestation asset id) = s.get (.attestation asset id) := by
  refine ⟨h.get_of_not_writes ?_, fun id => h.get_of_not_writes ?_⟩ <;>
    cases op <;> grind [Op.writes]

/-- Registration and a reserve change empty the slot; no call but these and an
attestation writes the entry. -/
theorem Effect.slot_frame (h : Effect invocation s op s')
    (hop : ∀ l r n p, op ≠ .submitAttestation asset l r n p) {entry : AssetEntry}
    (hentry : s'.get (.asset asset) = some entry) :
    entry.attestation = .empty ∨ s.get (.asset asset) = some entry := by
  rcases h.get_eq_or_writes (.asset asset) with heq | hwrites
  · exact .inr (heq ▸ hentry)
  · left
    cases h with
    | registerAsset =>
      obtain rfl : asset = _ := by simpa [Op.writes] using hwrites
      simp at hentry
      rw [← hentry]
    | setReserves =>
      obtain rfl : asset = _ := by simpa [Op.writes] using hwrites
      simp at hentry
      rw [← hentry]
    | submitAttestation =>
      obtain rfl : asset = _ := by simpa [Op.writes] using hwrites
      exact absurd rfl (hop _ _ _ _)
    | _ => simp [Op.writes] at hwrites

/-- The slot, the counter, and the records after an attestation. -/
theorem Effect.submit_spec {l : U32} {r : U256} {n : U128} {proof : Bytes}
    (h : Effect invocation s (.submitAttestation asset l r n proof) s') :
    ∃ entry a id, s.get (.asset asset) = some entry ∧
      id.toNat = (s.attestationCount asset).toNat + 1 ∧
      a.snapshotLedger = l ∧ a.finalRoot = r ∧ a.totalLiabilities = n ∧
      a.attestedLedger = s.ledger.sequence ∧ a.WellFormed ∧
      invocation.authorized entry.authority = true ∧
      Accepts invocation s (publicInputs a.contextHash a.finalRoot a.totalLiabilities) proof ∧
      contextHash H.poseidon2 entry.authority asset entry.reserveSetHash a.snapshotLedger =
        .ok a.contextHash ∧
      s'.get (.asset asset) = some { entry with attestation := .filled a } ∧
      s'.attestationCount asset = id ∧
      s'.get (.attestation asset id) = some a ∧
      ∀ j, j ≠ id → s'.get (.attestation asset j) = s.get (.attestation asset j) := by
  cases h with
  | @submitAttestation _ _ entry a id registered attestedNow notBefore recent inRange auth context
      verified summed next =>
    refine ⟨entry, a, id, registered, next, rfl, rfl, rfl, attestedNow,
      ⟨notBefore, (le_saturatingAdd_iff _ _ _).mp recent, inRange⟩, auth, verified, context,
      by simp, ?_, ?_, fun j hj => ?_⟩
    · simp [State.attestationCount, State.get_save_of_ne]
    · simp [State.get_save_of_ne, State.get_record_fst]
    · simp [State.get_save_of_ne, State.get_record_of_ne, hj]

/-- An attestation keeps the invariant: its record is the newest, and the slot
holds it. -/
theorem HistoryInvariant.submit {l : U32} {r : U256} {n : U128} {proof : Bytes}
    (hi : HistoryInvariant H asset s)
    (h : Effect invocation s (.submitAttestation asset l r n proof) s') :
    HistoryInvariant H asset s' := by
  have hledger : s'.ledger = s.ledger := h.ledger
  obtain ⟨entry, a, id, hentry, hid, -, -, -, hnow, hwf, -, -, hcontext, hslot, hcount, hnew,
    hold⟩ := h.submit_spec
  -- every record is the new one, or an old one under an older identifier
  have hrecord : ∀ {j b}, s'.get (.attestation asset j) = some b →
      (j = id ∧ b = a) ∨ (j.toNat < id.toNat ∧ s.get (.attestation asset j) = some b) := by
    intro j b hb
    by_cases hj : j = id
    · subst hj
      exact .inl ⟨rfl, Option.some.inj (hb.symm.trans hnew)⟩
    · rw [hold j hj] at hb
      have := ((hi.exists_iff j).mp (by simp [hb])).2
      exact .inr ⟨by omega, hb⟩
  constructor
  · rw [hcount]
    exact hi.numbered.append hid (by simp [hnew]) hold
  · intro j b hb
    rcases hrecord hb with ⟨-, rfl⟩ | ⟨-, hb⟩
    · exact hwf
    · exact hi.wellFormed j b hb
  · intro j b hb
    rw [hledger]
    rcases hrecord hb with ⟨-, rfl⟩ | ⟨-, hb⟩
    · rw [hnow]
    · exact hi.past j b hb
  · intro i j b c hij hb hc
    rcases hrecord hb with ⟨rfl, rfl⟩ | ⟨hlt, hb⟩ <;> rcases hrecord hc with ⟨rfl, rfl⟩ | ⟨hlt', hc⟩
    · exact le_refl _
    · omega
    · rw [hnow]
      exact hi.past i b hb
    · exact hi.sorted i j b c hij hb hc
  · intro entry' b he hb
    rw [hslot] at he
    obtain rfl := Option.some.inj he
    obtain rfl : a = b := by simpa using hb
    rw [hcount]
    exact ⟨by omega, hnew, hcontext⟩

/-- **Every call keeps the history invariant.** -/
theorem HistoryInvariant.step (h : Effect invocation s op s') (hi : HistoryInvariant H asset s) :
    HistoryInvariant H asset s' := by
  by_cases hop : ∀ l r n p, op ≠ .submitAttestation asset l r n p
  · obtain ⟨hcount, hrecords⟩ := h.history_frame hop
    exact hi.congr (fun _ he => h.slot_frame hop he) hcount hrecords (by rw [h.ledger])
  · push Not at hop
    obtain ⟨l, r, n, p, rfl⟩ := hop
    exact hi.submit h

end Steps

/-! ## The history over a whole run -/

namespace RegistryRun
variable {H : Host} (run : RegistryRun H) (asset : Address)

theorem historyInvariant (t : Nat) : HistoryInvariant H asset (run.state t) :=
  run.invariant (fun _ h => .of_deployed h)
    (fun _ _ hq hi => hi.congr (fun _ he => .inr (hq.get _ ▸ he)) (hq.get _) (fun _ => hq.get _)
      hq.sequence)
    (fun h hi => hi.step h) t

/-- No step changes or removes a record. -/
theorem record_step {t : Nat} {id : U64} {a : Attestation}
    (h : (run.state t).get (.attestation asset id) = some a) :
    (run.state (t + 1)).get (.attestation asset id) = some a := by
  rcases run.step t with ⟨invocation, op, hcall⟩ | hquiet
  · rcases hcall.effect.get_eq_or_writes (.attestation asset id) with heq | hwrites
    · rw [heq, h]
    · -- a written identifier is fresh, and this one is not
      have hle := (((run.historyInvariant asset t).exists_iff id).mp (by simp [h])).2
      cases op <;> simp [Op.writes] at hwrites
      obtain ⟨hnext, rfl⟩ := hwrites
      omega
  · rw [hquiet.get, h]

theorem record_stable {t u : Nat} (htu : t ≤ u) {id : U64} {a : Attestation}
    (h : (run.state t).get (.attestation asset id) = some a) :
    (run.state u).get (.attestation asset id) = some a :=
  Run.stable run (P := fun s => s.get (.attestation asset id) = some a)
    (fun _ => run.record_step asset) htu h

variable {asset}

/-- **The call that stored a record.**  The authority of that moment authorized it,
and the verifier of the deployment accepted a proof for exactly the public inputs
of the record. -/
structure RecordedBy (asset : Address) (id : U64) (a : Attestation) (u : Nat)
    (invocation : Invocation H) (proof : Bytes) : Prop where
  call : run.Calls u invocation
    (.submitAttestation asset a.snapshotLedger a.finalRoot a.totalLiabilities proof)
  fresh : (run.state u).get (.attestation asset id) = none
  stored : (run.state (u + 1)).get (.attestation asset id) = some a
  auth : ∃ entry, (run.state u).get (.asset asset) = some entry ∧
    invocation.authorized entry.authority = true
  verified : ∃ verifier, run.first.inst.get .verifier = some verifier ∧
    invocation.verifyProof verifier
      (publicInputs a.contextHash a.finalRoot a.totalLiabilities) proof = some ()

/-- A record that appears at one step was stored by the call of that step. -/
theorem recordedBy_of_onset {u : Nat} {id : U64} {a : Attestation}
    (hbefore : (run.state u).get (.attestation asset id) ≠ some a)
    (hafter : (run.state (u + 1)).get (.attestation asset id) = some a) :
    ∃ invocation proof, run.RecordedBy asset id a u invocation proof := by
  have hne : (run.state (u + 1)).get (.attestation asset id) ≠
      (run.state u).get (.attestation asset id) := fun h => hbefore (h ▸ hafter)
  obtain ⟨invocation, op, hcall⟩ := run.exists_call_of_ne hne
  have hwrites := (hcall.effect.get_eq_or_writes (.attestation asset id)).resolve_left hne
  have hfresh : (run.state u).get (.attestation asset id) = none := by
    cases hold : (run.state u).get (.attestation asset id) with
    | none => rfl
    | some b => exact absurd ((run.record_step asset hold).trans hold.symm) hne
  cases op with
  | submitAttestation asset' l r n proof =>
    obtain ⟨id', _, hkey⟩ : ∃ id', _ ∧ DataKey.attestation asset id = .attestation asset' id' := by
      simpa [Op.writes] using hwrites
    obtain ⟨rfl, rfl⟩ : asset = asset' ∧ id = id' := by simpa using hkey
    obtain ⟨entry, b, id'', hentry, _, rfl, rfl, rfl, _, _, hauth, hverified, _, _, _, hnew,
      hold⟩ := hcall.effect.submit_spec
    obtain rfl : id = id'' := by
      by_contra hid
      exact hne (hold id hid)
    obtain rfl : a = b := Option.some.inj (hafter.symm.trans hnew)
    obtain ⟨verifier, hverifier, haccept⟩ := hverified
    rw [run.inst_eq] at hverifier
    exact ⟨invocation, proof, hcall, hfresh, hafter, ⟨entry, hentry, hauth⟩, verifier, hverifier,
      haccept⟩
  | _ => simp [Op.writes] at hwrites

/-- Every record was stored by an earlier call. -/
theorem exists_recordedBy {t : Nat} {id : U64} {a : Attestation}
    (h : (run.state t).get (.attestation asset id) = some a) :
    ∃ u < t, ∃ invocation proof, run.RecordedBy asset id a u invocation proof := by
  obtain ⟨u, hut, hafter, hne, -⟩ := run.exists_write h
  have hbefore : (run.state u).get (.attestation asset id) ≠ _ := fun heq => hne (hafter.trans heq.symm)
  exact ⟨u, hut, run.recordedBy_of_onset hbefore hafter⟩

/-- **The attestation history of one asset over a run.** -/
structure AttestationHistory (asset : Address) : Prop where
  invariant : ∀ t, HistoryInvariant H asset (run.state t)
  unchanged : ∀ t u id a, t ≤ u → (run.state t).get (.attestation asset id) = some a →
    (run.state u).get (.attestation asset id) = some a
  recorded : ∀ t id a, (run.state t).get (.attestation asset id) = some a →
    ∃ u < t, ∃ invocation proof, run.RecordedBy asset id a u invocation proof

/-- **The history holds, from the deployment on, for every asset.** -/
theorem attestation_history (run : RegistryRun H) (asset : Address) :
    run.AttestationHistory asset where
  invariant := run.historyInvariant asset
  unchanged _ _ _ _ htu h := run.record_stable asset htu h
  recorded _ _ _ h := run.exists_recordedBy h

end RegistryRun
end ZkPoR
