import ZkPoR.EmailInputs
import ZkPoR.NumberedLog
import ZkPoR.RegistryRun

/-! # Signer keys

The records of signer keys over the runs of a registry, and what an email proof binds
through them.  `SignerInvariant` says that the records of an asset are numbered and
that each one was checked; a record is written once, by a call that the authority of
the asset authorized (`RegistryRun.KeyRegisteredBy`).
-/
namespace ZkPoR
open ByteString CheckedInt TypedStore Transaction TransitionSystem NumberedLog

/-- **The counter and the signer keys of one asset.** -/
structure SignerInvariant (asset : Address) (s : State) : Prop where
  numbered : Numbered (fun id => s.get (.dkimKey asset id)) (s.dkimKeyCount asset)
  wellFormed : ∀ id record, s.get (.dkimKey asset id) = some record → Email.WellFormed record

section Steps
variable {H : Host} {invocation : Invocation H} {op : Op} {s s' : State} {asset : Address}

theorem SignerInvariant.of_deployed (h : Deployed H s) : SignerInvariant asset s where
  numbered := .of_empty (fun _ => h.get _) (by rw [State.dkimKeyCount, h.get]; rfl)
  wellFormed id record hrecord := by simp [h.get] at hrecord

theorem SignerInvariant.congr (hi : SignerInvariant asset s)
    (hcount : s'.get (.dkimKeyCount asset) = s.get (.dkimKeyCount asset))
    (hrecords : ∀ id, s'.get (.dkimKey asset id) = s.get (.dkimKey asset id)) :
    SignerInvariant asset s' := by
  have hn : s'.dkimKeyCount asset = s.dkimKeyCount asset := by
    rw [State.dkimKeyCount, State.dkimKeyCount, hcount]
  constructor
  · rw [hn, funext hrecords]
    exact hi.numbered
  · intro id record hrecord
    exact hi.wellFormed id record (hrecords id ▸ hrecord)

/-- Only a registration writes the signer keys of its asset. -/
theorem Effect.signer_frame (h : Effect invocation s op s')
    (hop : ∀ key, op ≠ .registerDkimKey asset key) :
    s'.get (.dkimKeyCount asset) = s.get (.dkimKeyCount asset) ∧
      ∀ id, s'.get (.dkimKey asset id) = s.get (.dkimKey asset id) := by
  refine ⟨h.get_of_not_writes ?_, fun id => h.get_of_not_writes ?_⟩ <;>
    cases op <;> grind [Op.writes]

/-- What a registration checked and stored. -/
theorem Effect.register_spec {key : DkimKeyInput}
    (h : Effect invocation s (.registerDkimKey asset key) s') :
    ∃ entry keyId bytes record, s.get (.asset asset) = some entry ∧
      invocation.authorized entry.authority = true ∧
      keyId.toNat = (s.dkimKeyCount asset).toNat + 1 ∧ record.key = key ∧
      record.registeredLedger = s.ledger.sequence ∧
      (Email.registration H asset entry.authority keyId key).bytes = .ok bytes ∧
      record.contextHash = frReduce (H.sha256 bytes).toList ∧ Email.WellFormed record ∧
      s'.dkimKeyCount asset = keyId ∧ s'.get (.dkimKey asset keyId) = some record ∧
      ∀ j, j ≠ keyId → s'.get (.dkimKey asset j) = s.get (.dkimKey asset j) := by
  cases h with
  | @registerDkimKey _ entry keyId record registered modulus redc next context nonzero auth
      registeredNow =>
    obtain ⟨bytes, hbytes, hcontext⟩ := Email.context_eq_ok.mp context
    refine ⟨entry, keyId, bytes, record, registered, auth, next, rfl, registeredNow, hbytes,
      hcontext, ⟨modulus, redc, nonzero, hcontext ▸ Email.frInRange_frReduce _⟩, ?_, ?_,
      fun j hj => ?_⟩
    · simp [State.dkimKeyCount]
    · simp [State.get_record_fst]
    · simp [State.get_record_of_ne, hj]

/-- **Every call keeps the signer keys numbered and checked.** -/
theorem SignerInvariant.step (h : Effect invocation s op s') (hi : SignerInvariant asset s) :
    SignerInvariant asset s' := by
  by_cases hop : ∀ key, op ≠ .registerDkimKey asset key
  · obtain ⟨hcount, hrecords⟩ := h.signer_frame hop
    exact hi.congr hcount hrecords
  · push Not at hop
    obtain ⟨key, rfl⟩ := hop
    obtain ⟨entry, keyId, bytes, record, -, -, hnext, -, -, -, -, hwf, hcount, hnew, hold⟩ :=
      h.register_spec
    constructor
    · rw [hcount]
      exact hi.numbered.append hnext (by simp [hnew]) hold
    · intro j record' hrecord'
      by_cases hj : j = keyId
      · subst hj
        rwa [← Option.some.inj (hnew.symm.trans hrecord')]
      · exact hi.wellFormed j record' (hold j hj ▸ hrecord')

end Steps

/-! ## Signer keys over a whole run -/

namespace RegistryRun
variable {H : Host} (run : RegistryRun H) {asset : Address}

theorem signerInvariant (asset : Address) (t : Nat) : SignerInvariant asset (run.state t) :=
  run.invariant (fun _ h => .of_deployed h)
    (fun _ _ hq hi => hi.congr (hq.get _) fun _ => hq.get _) (fun h hi => hi.step h) t

/-- No step changes or removes a signer key. -/
theorem signer_step {t : Nat} {id : U64} {record : DkimKey}
    (h : (run.state t).get (.dkimKey asset id) = some record) :
    (run.state (t + 1)).get (.dkimKey asset id) = some record := by
  rcases run.step t with ⟨invocation, op, hcall⟩ | hquiet
  · rcases hcall.effect.get_eq_or_writes (.dkimKey asset id) with heq | hwrites
    · rw [heq, h]
    · -- a written identifier is fresh, and this one is not
      have hle := (((run.signerInvariant asset t).numbered id).mp (by simp [h])).2
      cases op <;> simp [Op.writes] at hwrites
      obtain ⟨hnext, rfl⟩ := hwrites
      omega
  · rw [hquiet.get, h]

theorem signer_stable {t u : Nat} (htu : t ≤ u) {id : U64} {record : DkimKey}
    (h : (run.state t).get (.dkimKey asset id) = some record) :
    (run.state u).get (.dkimKey asset id) = some record :=
  Run.stable run (P := fun s => s.get (.dkimKey asset id) = some record)
    (fun _ => run.signer_step) htu h

/-- **The call that registered a signer key.**  The authority of the asset authorized
it, and the context is the reduced hash of the registration. -/
structure KeyRegisteredBy (asset : Address) (id : U64) (record : DkimKey) (u : Nat)
    (invocation : Invocation H) (authority : Address) : Prop where
  call : run.Calls u invocation (.registerDkimKey asset record.key)
  fresh : (run.state u).get (.dkimKey asset id) = none
  stored : (run.state (u + 1)).get (.dkimKey asset id) = some record
  entry : ∃ entry, (run.state u).get (.asset asset) = some entry ∧ entry.authority = authority
  auth : invocation.authorized authority = true
  context : ∃ bytes, (Email.registration H asset authority id record.key).bytes = .ok bytes ∧
    record.contextHash = frReduce (H.sha256 bytes).toList

/-- Every signer key was registered by an earlier call. -/
theorem exists_keyRegisteredBy {t : Nat} {id : U64} {record : DkimKey}
    (h : (run.state t).get (.dkimKey asset id) = some record) :
    ∃ u < t, ∃ invocation authority, run.KeyRegisteredBy asset id record u invocation authority := by
  obtain ⟨u, hut, hafter, hne, invocation, op, hcall, hwrites⟩ := run.exists_write h
  have hop : ∃ key, op = .registerDkimKey asset key := by
    by_contra hop
    push Not at hop
    exact hne ((hcall.effect.signer_frame hop).2 id)
  obtain ⟨key, rfl⟩ := hop
  obtain ⟨entry, keyId, bytes, record', hentry, hauth, hnext, rfl, -, hbytes, hcontext, -, -,
    hnew, hold⟩ := hcall.effect.register_spec
  obtain rfl : id = keyId := by
    by_contra hid
    exact hne (hold id hid)
  obtain rfl : record = record' := Option.some.inj (hafter.symm.trans hnew)
  exact ⟨u, hut, invocation, entry.authority, hcall,
    (run.signerInvariant asset u).numbered.next_eq_none hnext, hafter, ⟨entry, hentry, rfl⟩,
    hauth, bytes, hbytes, hcontext⟩

/-- **The signer keys of one asset over a run.** -/
structure SignerKeys (asset : Address) : Prop where
  numbered : ∀ t id, ((run.state t).get (.dkimKey asset id)).isSome ↔
    1 ≤ id.toNat ∧ id.toNat ≤ ((run.state t).dkimKeyCount asset).toNat
  unchanged : ∀ t u id record, t ≤ u → (run.state t).get (.dkimKey asset id) = some record →
    (run.state u).get (.dkimKey asset id) = some record
  registered : ∀ t id record, (run.state t).get (.dkimKey asset id) = some record →
    ∃ u < t, ∃ invocation authority, run.KeyRegisteredBy asset id record u invocation authority
  wellFormed : ∀ t id record, (run.state t).get (.dkimKey asset id) = some record →
    Email.WellFormed record

theorem signerKeys (asset : Address) : run.SignerKeys asset where
  numbered t := (run.signerInvariant asset t).numbered
  unchanged _ _ _ _ htu h := run.signer_stable htu h
  registered _ _ _ h := run.exists_keyRegisteredBy h
  wellFormed t := (run.signerInvariant asset t).wellFormed

/-- A stored signer key was registered as `r`, whose byte string its context hashes. -/
def RegisteredAs (t : Nat) (record : DkimKey) (r : Email.Registration) (bytes : Bytes) : Prop :=
  (run.state t).get (.dkimKey r.asset r.keyId) = some record ∧ r.networkId = H.networkId ∧
    r.registry = H.currentContract ∧ r.key = record.key ∧ r.bytes = .ok bytes ∧
    record.contextHash = frReduce (H.sha256 bytes).toList ∧
    ∃ u < t, ∃ invocation,
      run.KeyRegisteredBy r.asset r.keyId record u invocation r.authority

theorem exists_registeredAs {t : Nat} {id : U64} {record : DkimKey}
    (h : (run.state t).get (.dkimKey asset id) = some record) :
    ∃ r bytes, r.asset = asset ∧ r.keyId = id ∧ run.RegisteredAs t record r bytes := by
  obtain ⟨u, hut, invocation, authority, hregistered⟩ := run.exists_keyRegisteredBy h
  obtain ⟨bytes, hbytes, hcontext⟩ := hregistered.context
  exact ⟨Email.registration H asset authority id record.key, bytes, rfl, rfl, h, rfl, rfl, rfl,
    hbytes, hcontext, u, hut, invocation, hregistered⟩

/-- **What an email proof binds.**  The signer keys of every reachable state are numbered,
unchanged, authorized, and checked; the public inputs of an email are nine canonical
field elements that name the record and the identifier; a registration context names the
registration.  So two emails share their public inputs only when they share the
identifier and the registration, unless two registrations share a reduced hash. -/
theorem email_binding {H' : Host} (run : RegistryRun H) (run' : RegistryRun H') :
    (∀ asset, run.SignerKeys asset) ∧
    (∀ t asset keyId record id, (run.state t).get (.dkimKey asset keyId) = some record →
      id ≠ 0 → frInRange id →
      ∃ elements : List Bytes, Email.publicInputs record id = elements.flatten ∧
        elements.length = 9 ∧ ∀ e ∈ elements, e.length = 32 ∧ beNat e < frModulus) ∧
    (∀ record record' id id', Email.publicInputs record id = Email.publicInputs record' id' →
      record.contextHash = record'.contextHash ∧ record.key = record'.key ∧ id = id') ∧
    (∀ (r r' : Email.Registration) bytes, r.bytes = .ok bytes → r'.bytes = .ok bytes → r = r') ∧
    ∀ t t' asset asset' keyId keyId' record record' id id',
      (run.state t).get (.dkimKey asset keyId) = some record →
      (run'.state t').get (.dkimKey asset' keyId') = some record' →
      Email.publicInputs record id = Email.publicInputs record' id' →
      id = id' ∧ ∃ r bytes r' bytes', r.asset = asset ∧ r.keyId = keyId ∧
        run.RegisteredAs t record r bytes ∧ r'.asset = asset' ∧ r'.keyId = keyId' ∧
        run'.RegisteredAs t' record' r' bytes' ∧
        (r = r' ∨ bytes ≠ bytes' ∧
          frReduce (H.sha256 bytes).toList = frReduce (H'.sha256 bytes').toList) := by
  refine ⟨run.signerKeys, fun t asset keyId record id h _ _ => ?_,
    fun _ _ _ _ => Email.publicInputs_inj, fun _ _ _ => Email.Registration.bytes_injOn, ?_⟩
  · have hrecord := (run.signerInvariant asset t).wellFormed keyId record h
    exact ⟨_, Email.publicInputs_eq record id, Email.length_elements record id, fun e he =>
      ⟨Email.length_of_mem_elements record id e he,
        Email.canonical_of_mem_elements hrecord id e he⟩⟩
  · intro t t' asset asset' keyId keyId' record record' id id' h h' heq
    obtain ⟨hcontext, -, hid⟩ := Email.publicInputs_inj heq
    obtain ⟨r, bytes, hasset, hkeyId, hr⟩ := run.exists_registeredAs h
    obtain ⟨r', bytes', hasset', hkeyId', hr'⟩ := run'.exists_registeredAs h'
    refine ⟨hid, r, bytes, r', bytes', hasset, hkeyId, hr, hasset', hkeyId', hr', ?_⟩
    obtain ⟨-, -, -, -, hbytes, hhash, -⟩ := hr
    obtain ⟨-, -, -, -, hbytes', hhash', -⟩ := hr'
    -- equal bytes are one registration, and different ones collide
    by_cases hsame : bytes = bytes'
    · rw [← hsame] at hbytes'
      exact .inl (Email.Registration.bytes_injOn hbytes hbytes')
    · exact .inr ⟨hsame, by rw [← hhash, ← hhash', hcontext]⟩

end RegistryRun
end ZkPoR
