import ZkPoR.RegistryRun

/-! # Every write is kept alive

Each state-changing function ends with the extension of the entries that it wrote
and of the contract instance to the largest time to live.  `KeptAlive` is what one
call does to the lifetimes: an entry that the call wrote lives until
`State.extendedUntil`, and every other entry is the entry before the call, its lifetime
included.  A run then carries the bound of the last write of every key to every
later state (`RegistryRun.kept_alive`).

Nothing shortens a lifetime: an extension or a restoration by somebody else only
moves it forward, so the bounds stay true beside those.
-/
namespace ZkPoR
open ByteString CheckedInt TypedStore Transaction TransitionSystem

/-! ## One write -/

namespace State
variable (s : State) (k k' : DataKey) (v : k.Val) (v' : k'.Val)

/-- The largest ledger that an extension can reach in this state. -/
def lifetimeGoal : Nat := s.ledger.sequence.toNat + s.ledger.maxTtl

/-- The last live ledger of an entry after a write and its extension. -/
def extendedUntil : Nat :=
  max ((s.persistent.liveUntil k).getD
    (s.ledger.sequence.toNat + s.ledger.minPersistentTtl - 1)) s.lifetimeGoal

theorem lifetimeGoal_le_extendedUntil : s.lifetimeGoal ≤ s.extendedUntil k := le_max_right _ _

/-- The bound reads the ledger and the entry under the key, and nothing else. -/
theorem extendedUntil_congr {s s' : State} {k : DataKey} (hledger : s'.ledger = s.ledger)
    (hentry : s'.persistent.entry k = s.persistent.entry k) :
    s'.extendedUntil k = s.extendedUntil k := by
  rw [extendedUntil, extendedUntil, lifetimeGoal, lifetimeGoal, Store.liveUntil, Store.liveUntil,
    hledger, hentry]

/-- A write whose lifetime is topped up to the network limit. -/
theorem entry_save_self :
    (s.save k v).persistent.entry k = some ⟨v, s.extendedUntil k⟩ := by
  rw [save, extendContract_persistent, extendEntry_persistent,
    Store.entry_extendTtl_self _ _ _ (by rw [put_persistent, Store.entry_put_self])]
  rfl

/-- A write after others that left its own entry alone. -/
theorem entry_save_self_of_eq {s s' : State} {k : DataKey} (v : k.Val)
    (hledger : s'.ledger = s.ledger) (hentry : s'.persistent.entry k = s.persistent.entry k) :
    (s'.save k v).persistent.entry k = some ⟨v, s.extendedUntil k⟩ := by
  rw [entry_save_self, extendedUntil_congr hledger hentry]

theorem entry_save_of_ne {j : DataKey} (h : j ≠ k) :
    (s.save k v).persistent.entry j = s.persistent.entry j := by
  rw [save, extendContract_persistent, extendEntry_persistent, Store.entry_extendTtl_of_ne _ _ _ _ h,
    put_persistent, Store.entry_put_of_ne _ _ _ h]

/-- An extension of the other entry comes between a write and its own extension. -/
theorem entry_record_fst (h : k ≠ k') :
    (s.record k v k' v').persistent.entry k = some ⟨v, s.extendedUntil k⟩ := by
  have hput : ((s.put k v).put k' v').persistent.entry k =
      some ⟨v, (s.persistent.liveUntil k).getD
        (s.ledger.sequence.toNat + s.ledger.minPersistentTtl - 1)⟩ := by
    rw [put_persistent, Store.entry_put_of_ne _ _ _ h, put_persistent, Store.entry_put_self]
  rw [record, extendEntry_persistent, Store.entry_extendTtl_of_ne _ _ _ _ h,
    extendEntry_persistent, Store.entry_extendTtl_self _ _ _ hput]
  rfl

theorem entry_record_snd (h : k ≠ k') :
    (s.record k v k' v').persistent.entry k' = some ⟨v', s.extendedUntil k'⟩ := by
  have hlive : (s.put k v).persistent.liveUntil k' = s.persistent.liveUntil k' := by
    rw [Store.liveUntil, put_persistent, Store.entry_put_of_ne _ _ _ h.symm, Store.liveUntil]
  have hput : (((s.put k v).put k' v').extendEntry k).persistent.entry k' =
      some ⟨v', (s.persistent.liveUntil k').getD
        (s.ledger.sequence.toNat + s.ledger.minPersistentTtl - 1)⟩ := by
    rw [extendEntry_persistent, Store.entry_extendTtl_of_ne _ _ _ _ h.symm, put_persistent,
      Store.entry_put_self, hlive]
    rfl
  rw [record, extendEntry_persistent, Store.entry_extendTtl_self _ _ _ hput]
  rfl

theorem entry_record_of_ne {j : DataKey} (h : j ≠ k) (h' : j ≠ k') :
    (s.record k v k' v').persistent.entry j = s.persistent.entry j := by
  rw [record, extendEntry_persistent, Store.entry_extendTtl_of_ne _ _ _ _ h',
    extendEntry_persistent, Store.entry_extendTtl_of_ne _ _ _ _ h, put_persistent,
    Store.entry_put_of_ne _ _ _ h', put_persistent, Store.entry_put_of_ne _ _ _ h]

/-- The extension of the contract tops its lifetime up to the network limit. -/
theorem extendContract_instLiveUntil_eq :
    s.extendContract.instLiveUntil = max s.instLiveUntil s.lifetimeGoal := by
  rw [extendContract_instLiveUntil, lifetimeGoal]
  split
  · rename_i h
    rw [max_eq_right h.1.le]
  · rename_i h
    rw [max_eq_left (by omega)]

end State

/-! ## One call -/

/-- The target and the identifier of the dispute that a call is about. -/
def Op.disputed (s : State) : Op → Option (U64 × U256)
  | openDispute asset _ target evidence =>
    some (s.targetOf asset target, evidence.identifier)
  | answerDispute _ targetId evidence => some (targetId, evidence.id)
  | resolveDispute _ targetId id => some (targetId, id)
  | registerAsset _ _ _ _ | setReserves _ _ | submitAttestation _ _ _ _ _ | observeReserves _
  | registerDkimKey _ _ | fundBond _ _ => none

/-- **What one call does to the lifetimes.** -/
structure KeptAlive (s : State) (op : Op) (s' : State) : Prop where
  written : ∀ k, op.writes s k → ∃ v, s'.persistent.entry k = some ⟨v, s.extendedUntil k⟩
  frame : ∀ k, ¬ op.writes s k → s'.persistent.entry k = s.persistent.entry k
  owned : ∀ k, op.writes s k → k.owner = some op.asset
  disputed : ∀ asset targetId identifier, op.writes s (.dispute asset targetId identifier) →
    op.disputed s = some (targetId, identifier)
  contract : s'.instLiveUntil = max s.instLiveUntil s.lifetimeGoal

theorem Op.disputed_of_writes {s : State} {op : Op} {asset : Address} {targetId : U64}
    {identifier : U256} (h : op.writes s (.dispute asset targetId identifier)) :
    op.disputed s = some (targetId, identifier) := by
  cases op <;> simp only [Op.writes] at h <;> grind [Op.disputed]

section
variable {H : Host} {invocation : Invocation H} {op : Op} {s s' : State}

/-- The entries that a call wrote are extended. -/
theorem Effect.entry_of_writes (h : Effect invocation s op s') {k : DataKey}
    (hk : op.writes s k) : ∃ v, s'.persistent.entry k = some ⟨v, s.extendedUntil k⟩ := by
  cases h with
  | registerAsset | setReserves | fundBond | openDispute | answerDispute =>
    cases hk
    exact ⟨_, State.entry_save_self ..⟩
  | @submitAttestation asset _ _ _ id _ _ _ _ _ _ _ _ _ next =>
    -- three keys are written, in an order in which none is written again
    have hrecord : DataKey.attestation asset id ≠ .attestationCount asset := nofun
    have hrecord' : DataKey.attestation asset id ≠ .asset asset := nofun
    have hcount : DataKey.attestationCount asset ≠ .asset asset := nofun
    rw [State.publish_persistent]
    rcases hk with rfl | rfl | ⟨id', next', rfl⟩
    · exact ⟨_, State.entry_save_self_of_eq _ (State.record_ledger ..)
        (State.entry_record_of_ne _ _ _ _ _ hrecord'.symm hcount.symm)⟩
    · rw [State.entry_save_of_ne _ _ _ hcount]
      exact ⟨_, State.entry_record_snd _ _ _ _ _ hrecord⟩
    · obtain rfl := BitVec.eq_of_toNat_eq (next'.trans next.symm)
      rw [State.entry_save_of_ne _ _ _ hrecord']
      exact ⟨_, State.entry_record_fst _ _ _ _ _ hrecord⟩
  | observeReserves _ next =>
    rw [State.extendContract_persistent]
    rcases hk with rfl | ⟨id', next', rfl⟩
    · exact ⟨_, State.entry_record_snd _ _ _ _ _ nofun⟩
    · obtain rfl := BitVec.eq_of_toNat_eq (next'.trans next.symm)
      exact ⟨_, State.entry_record_fst _ _ _ _ _ nofun⟩
  | registerDkimKey _ _ _ next =>
    rw [State.extendContract_persistent]
    rcases hk with rfl | ⟨id', next', rfl⟩
    · exact ⟨_, State.entry_record_snd _ _ _ _ _ nofun⟩
    · obtain rfl := BitVec.eq_of_toNat_eq (next'.trans next.symm)
      exact ⟨_, State.entry_record_fst _ _ _ _ _ nofun⟩
  | @resolveDispute asset targetId id =>
    -- the bond is written first, and the dispute after it
    have hbond : DataKey.bond asset ≠ .dispute asset targetId id := nofun
    rw [State.move_persistent]
    rcases hk with rfl | rfl
    · rw [State.entry_save_of_ne _ _ _ hbond]
      exact ⟨_, State.entry_save_self ..⟩
    · exact ⟨_, State.entry_save_self_of_eq _ (State.save_ledger ..)
        (State.entry_save_of_ne _ _ _ hbond.symm)⟩

/-- Every other entry is the entry before the call, its lifetime included. -/
theorem Effect.entry_of_not_writes (h : Effect invocation s op s') {k : DataKey}
    (hk : ¬ op.writes s k) : s'.persistent.entry k = s.persistent.entry k := by
  cases h with
  | registerAsset | setReserves | fundBond | openDispute | answerDispute =>
    exact State.entry_save_of_ne _ _ _ hk
  | submitAttestation _ _ _ _ _ _ _ _ _ next =>
    simp only [Op.writes, not_or, not_exists, not_and] at hk
    obtain ⟨hasset, hcount, hrecord⟩ := hk
    rw [State.publish_persistent, State.entry_save_of_ne _ _ _ hasset,
      State.entry_record_of_ne _ _ _ _ _ (hrecord _ next) hcount]
  | observeReserves _ next =>
    simp only [Op.writes, not_or, not_exists, not_and] at hk
    rw [State.extendContract_persistent, State.entry_record_of_ne _ _ _ _ _ (hk.2 _ next) hk.1]
  | registerDkimKey _ _ _ next =>
    simp only [Op.writes, not_or, not_exists, not_and] at hk
    rw [State.extendContract_persistent, State.entry_record_of_ne _ _ _ _ _ (hk.2 _ next) hk.1]
  | resolveDispute =>
    simp only [Op.writes, not_or] at hk
    rw [State.move_persistent, State.entry_save_of_ne _ _ _ hk.2,
      State.entry_save_of_ne _ _ _ hk.1]

/-- Every call extends the contract. -/
theorem Effect.instLiveUntil (h : Effect invocation s op s') :
    s'.instLiveUntil = max s.instLiveUntil s.lifetimeGoal := by
  have hrecord : ∀ (k : DataKey) (v : k.Val) (k' : DataKey) (v' : k'.Val),
      (s.record k v k' v').instLiveUntil = s.instLiveUntil := fun _ _ _ _ => rfl
  cases h <;>
    simp [State.extendContract_instLiveUntil_eq, hrecord, State.lifetimeGoal]

theorem Effect.keptAlive (h : Effect invocation s op s') : KeptAlive s op s' where
  written _ := h.entry_of_writes
  frame _ := h.entry_of_not_writes
  owned _ := Op.owner_of_writes
  disputed _ _ _ := Op.disputed_of_writes
  contract := h.instLiveUntil

/-- No event shortens the lifetime of the contract. -/
theorem Event.instLiveUntil_le (e : Event H) (s : State) :
    s.instLiveUntil ≤ (e.apply s).instLiveUntil := by
  cases e with
  | call invocation op =>
    cases hrun : op.run invocation s with
    | ok p =>
      rw [apply, Tx.commit_of_ok hrun, (run_eq_ok.mp hrun).instLiveUntil]
      exact le_max_left _ _
    | error fault => rw [apply, Tx.commit_of_error hrun]
  | world ledger native =>
    rw [apply]
    split <;> exact le_rfl

/-- The deployment extends the contract. -/
theorem Deployed.instLiveUntil (h : Deployed H s) : s.lifetimeGoal ≤ s.instLiveUntil := by
  obtain ⟨invocation, verifier, emailVerifier, before, _, _, _, h⟩ := h
  simp only [constructor, Contract.invoke, Contract.refuseIf, ne_eq, Contract.instanceSet,
    Contract.extendContract, Tx.bind_eq_ok, Tx.reads_eq_ok, Tx.orFail_eq_ok,
    exists_eq_right_right, exists_eq_right, Tx.refuseIf_eq_ok, Decidable.not_not,
    Tx.modify_eq_ok, exists_eq_left', exists_const, ↓existsAndEq, and_true] at h
  obtain ⟨key, _, _, emailKey, _, _, rfl⟩ := h
  rw [State.extendContract_instLiveUntil_eq, State.lifetimeGoal, State.extendContract_ledger]
  exact le_max_right _ _

end

/-! ## A run -/

namespace RegistryRun
variable {H : Host} (run : RegistryRun H)

/-- The call at instant `u` writes a key, and no call from then until instant `t` does. -/
structure LastWrite (t : Nat) (k : DataKey) (u : Nat) : Prop where
  before : u < t
  call : ∃ invocation op, run.Calls u invocation op ∧ op.writes (run.state u) k
  last : ∀ v, u < v → v < t → ∀ invocation op, run.Calls v invocation op →
    ¬ op.writes (run.state v) k

variable {run}

/-- A later instant at which nothing writes the key has the same last write. -/
theorem LastWrite.succ {t u : Nat} {k : DataKey} (h : run.LastWrite t k u)
    (hquiet : ∀ invocation op, run.Calls t invocation op → ¬ op.writes (run.state t) k) :
    run.LastWrite (t + 1) k u where
  before := h.before.trans (Nat.lt_succ_self t)
  call := h.call
  last v huv hvt := by
    rcases Nat.lt_succ_iff_lt_or_eq.mp hvt with hvt | rfl
    · exact h.last v huv hvt
    · exact hquiet

variable (run)

/-- An instant at which no call writes a key keeps its entry. -/
theorem entry_succ {t : Nat} {k : DataKey}
    (hquiet : ∀ invocation op, run.Calls t invocation op → ¬ op.writes (run.state t) k) :
    (run.state (t + 1)).persistent.entry k = (run.state t).persistent.entry k := by
  rcases run.step t with ⟨invocation, op, hcall⟩ | hstep
  · exact hcall.effect.entry_of_not_writes (hquiet invocation op hcall)
  · rw [hstep.persistent]

/-- Every stored entry lives for the limit that its last write saw. -/
theorem exists_lastWrite {t : Nat} {k : DataKey} {e : Entry k.Val}
    (h : (run.state t).persistent.entry k = some e) :
    ∃ u, run.LastWrite t k u ∧ (run.state u).lifetimeGoal ≤ e.liveUntil := by
  induction t with
  | zero =>
    have hempty : (run.state 0).persistent = .empty := run.first_start.spec.1
    rw [hempty, Store.entry_empty] at h
    cases h
  | succ t ih =>
    -- the last step is the last write, or the entry is the one before it
    by_cases hwrite : ∃ invocation op, run.Calls t invocation op ∧ op.writes (run.state t) k
    · obtain ⟨invocation, op, hcall, hk⟩ := hwrite
      obtain ⟨v, hv⟩ := hcall.effect.entry_of_writes hk
      obtain rfl : _ = e := Option.some.inj (hv.symm.trans h)
      exact ⟨t, ⟨Nat.lt_succ_self t, ⟨invocation, op, hcall, hk⟩, fun v htv hvt => by omega⟩,
        State.lifetimeGoal_le_extendedUntil ..⟩
    · have hquiet : ∀ invocation op, run.Calls t invocation op → ¬ op.writes (run.state t) k :=
        fun invocation op hcall hk => hwrite ⟨invocation, op, hcall, hk⟩
      rw [run.entry_succ hquiet] at h
      obtain ⟨u, hlast, hle⟩ := ih h
      exact ⟨u, hlast.succ hquiet, hle⟩

/-- Nothing shortens the lifetime of the contract. -/
theorem instLiveUntil_mono {t u : Nat} (htu : t ≤ u) :
    (run.state t).instLiveUntil ≤ (run.state u).instLiveUntil :=
  Run.monotone_of_step run State.instLiveUntil
    (fun t => (run.event t).instLiveUntil_le (run.state t)) htu

/-- **Every write is kept alive.**  A successful call extends every entry that it writes,
and the contract, to the network limit, and it leaves every entry alone that is not of its
own asset, or not of its own dispute.  So every stored entry of a reachable state lives for
the limit that its last write saw, and the contract for that of every call before. -/
theorem kept_alive (t : Nat) :
    (∀ invocation op, run.Calls t invocation op →
      KeptAlive (run.state t) op (run.state (t + 1))) ∧
    (∀ k e, (run.state t).persistent.entry k = some e →
      ∃ u, run.LastWrite t k u ∧
        (run.state u).ledger.sequence.toNat + (run.state u).ledger.maxTtl ≤ e.liveUntil) ∧
    run.first.ledger.sequence.toNat + run.first.ledger.maxTtl ≤ (run.state t).instLiveUntil ∧
    ∀ u < t, ∀ invocation op, run.Calls u invocation op →
      (run.state u).ledger.sequence.toNat + (run.state u).ledger.maxTtl ≤
        (run.state t).instLiveUntil := by
  refine ⟨fun invocation op hcall => hcall.effect.keptAlive, fun k e he => run.exists_lastWrite he,
    ?_, fun u hut invocation op hcall => ?_⟩
  · exact run.first_start.instLiveUntil.trans (run.instLiveUntil_mono (Nat.zero_le t))
  · refine le_trans ?_ (run.instLiveUntil_mono hut)
    rw [hcall.effect.instLiveUntil]
    exact le_max_right _ _

end RegistryRun
end ZkPoR
