import ZkPoR.ReserveSets
import ZkPoR.RegistryRun
import ZkPoR.RunningSum
import ZkPoR.TransactionRelation

/-! # The sum of the reserves and the order of the list

The reserve set hash, and with it the context, names the set of the reserve
addresses.  `reserve_sum` adds the balances in the order of the list and refuses
the first partial sum that leaves the range of the balance type, so it answers
the exact sum when no partial sum leaves it.  This module says when that holds,
for one list and for every order of it, and that `submit_attestation` and
`observe_reserves` depend on the order through `reserve_sum` alone.
-/
namespace ZkPoR
open ByteString CheckedInt TypedStore Transaction RunningSum
open Contract

/-! ## One list -/

/-- The balances that the reserves of a list hold, in order. -/
def amounts (held : Address → I128) (reserves : List Address) : List Int :=
  reserves.map fun reserve => (held reserve).val

/-- The range of the balance type. -/
def BalanceRange (n : Int) : Prop := -(2 ^ 127) ≤ n ∧ n ≤ I128.MAX

instance (n : Int) : Decidable (BalanceRange n) := inferInstanceAs (Decidable (_ ∧ _))

section Sum
variable {balance : Address → Option I128} {held : Address → I128} {reserves : List Address}

theorem balanceRange_val (a : I128) : BalanceRange a.val := ⟨a.lower, a.le_max⟩

/-- The loop answers the exact sum while every partial sum is in range. -/
theorem reserveSumFrom_of_stays (start : I128)
    (hreads : ∀ reserve ∈ reserves, balance reserve = some (held reserve))
    (h : Stays (-(2 ^ 127)) I128.MAX start.val (amounts held reserves)) :
    ∃ total, total.val = start.val + (amounts held reserves).sum ∧
      reserveSumFrom balance start reserves = .ok total := by
  induction reserves generalizing start with
  | nil => exact ⟨start, by simp [amounts], rfl⟩
  | cons reserve reserves ih =>
    obtain ⟨hfirst, hrest⟩ := List.forall_mem_cons.mp hreads
    have htail := (stays_cons.mp h).2
    obtain ⟨next, hnext⟩ := I128.exists_checkedAdd htail.start_mem
    have hval := I128.checkedAdd_eq_some.mp hnext
    rw [← hval] at htail
    obtain ⟨total, htotal, hok⟩ := ih next hrest htail
    refine ⟨total, ?_, ?_⟩
    · rw [htotal, hval]
      simp [amounts, add_assoc]
    · simpa [reserveSumFrom, hfirst, hnext] using hok

/-- The loop refuses at the first partial sum that leaves the range. -/
theorem reserveSumFrom_of_not_stays (start : I128)
    (hreads : ∀ reserve ∈ reserves, balance reserve = some (held reserve))
    (h : ¬ Stays (-(2 ^ 127)) I128.MAX start.val (amounts held reserves)) :
    reserveSumFrom balance start reserves = .error .reserveSumOverflow := by
  induction reserves generalizing start with
  | nil => exact absurd (stays_nil.mpr (balanceRange_val start)) h
  | cons reserve reserves ih =>
    obtain ⟨hfirst, hrest⟩ := List.forall_mem_cons.mp hreads
    cases hadd : start.checkedAdd (held reserve) with
    | none => simp [reserveSumFrom, hfirst, hadd]
    | some next =>
      have hval := I128.checkedAdd_eq_some.mp hadd
      have htail : ¬ Stays (-(2 ^ 127)) I128.MAX next.val (amounts held reserves) := by
        rw [hval]
        exact fun htail => h (stays_cons.mpr ⟨balanceRange_val start, htail⟩)
      simpa [reserveSumFrom, hfirst, hadd] using ih next hrest htail

variable {H : Host} {invocation : Invocation H} {s : State} {asset : Address}

/-- `reserve_sum` answers the exact sum of the balances, and refuses exactly the sums
outside the range. -/
structure ExactSum (invocation : Invocation H) (s : State) (asset : Address)
    (held : Address → I128) (reserves : List Address) : Prop where
  overflow : reserveSum asset reserves invocation s = .error (.error .reserveSumOverflow) ↔
    ¬ BalanceRange (amounts held reserves).sum
  sum : BalanceRange (amounts held reserves).sum →
    ∃ total, total.val = (amounts held reserves).sum ∧
      reserveSum asset reserves invocation s = .ok (total, s)

/-- What `reserve_sum` answers, by whether a partial sum leaves the range. -/
theorem reserveSum_cases (s : State)
    (hreads : ∀ reserve ∈ reserves, invocation.balance asset reserve = some (held reserve)) :
    (Stays (-(2 ^ 127)) I128.MAX 0 (amounts held reserves) ∧
      ∃ total, total.val = (amounts held reserves).sum ∧
        reserveSum asset reserves invocation s = .ok (total, s)) ∨
    (¬ Stays (-(2 ^ 127)) I128.MAX 0 (amounts held reserves) ∧
      reserveSum asset reserves invocation s = .error (.error .reserveSumOverflow)) := by
  by_cases h : Stays (-(2 ^ 127)) I128.MAX 0 (amounts held reserves)
  · obtain ⟨total, htotal, hok⟩ := reserveSumFrom_of_stays 0 hreads h
    exact .inl ⟨h, total, by simpa using htotal, reserveSum_eq_ok.mpr ⟨hok, rfl⟩⟩
  · have herror := reserveSumFrom_of_not_stays 0 hreads h
    exact .inr ⟨h, by simp [reserveSum, herror]⟩

theorem exactSum_iff
    (hreads : ∀ reserve ∈ reserves, invocation.balance asset reserve = some (held reserve)) :
    ExactSum invocation s asset held reserves ↔
      (BalanceRange (amounts held reserves).sum →
        Stays (-(2 ^ 127)) I128.MAX 0 (amounts held reserves)) := by
  rcases reserveSum_cases s hreads with ⟨hstays, total, htotal, hok⟩ | ⟨hstays, herror⟩
  · have hrange : BalanceRange (amounts held reserves).sum := by
      simpa [BalanceRange] using hstays.sum_mem
    exact ⟨fun _ _ => hstays, fun _ => ⟨by simp [hok, hrange], fun _ => ⟨total, htotal, hok⟩⟩⟩
  · constructor
    · exact fun h hrange => absurd hrange (h.overflow.mp herror)
    · exact fun h => ⟨by simpa [herror] using fun hrange => hstays (h hrange),
        fun hrange => absurd (h hrange) hstays⟩

end Sum

/-! ## Two orders of one list -/

/-- Two states that differ in nothing but the order of the reserve list of one asset. -/
structure Reordered (asset : Address) (reserves reserves' : List Address) (s s' : State) :
    Prop where
  ledger : s.ledger = s'.ledger
  inst : s.inst = s'.inst
  instLiveUntil : s.instLiveUntil = s'.instLiveUntil
  native : s.native = s'.native
  events : s.events = s'.events
  entries : ∀ k ≠ .asset asset, s.persistent.entry k = s'.persistent.entry k
  asset : ∃ (entry : AssetEntry) (liveUntil : Nat),
    s.persistent.entry (.asset asset) = some ⟨{ entry with reserves }, liveUntil⟩ ∧
    s'.persistent.entry (.asset asset) = some ⟨{ entry with reserves := reserves' }, liveUntil⟩

/-- An extension of the lifetime of a key reads the entry of the key alone. -/
theorem entry_extendTtl {K : Type} {V : K → Type} [DecidableEq K] (s : Store K V)
    (now limit : Nat) (k : K) :
    (s.extendTtl now limit limit k).entry k =
      (s.entry k).map fun e => ⟨e.value, max e.liveUntil (now + limit)⟩ := by
  cases h : s.entry k with
  | none => simp [Store.extendTtl, h]
  | some e => exact s.entry_extendTtl_self now limit h

namespace Reordered
variable {asset : Address} {reserves reserves' : List Address} {s s' : State}

theorem get_eq (h : Reordered asset reserves reserves' s s') {k : DataKey} (hk : k ≠ .asset asset) :
    s.get k = s'.get k := by
  rw [State.get, State.get, Store.get, Store.get, h.entries k hk]

/-- The entry of the asset, in the two orders. -/
theorem exists_entry (h : Reordered asset reserves reserves' s s') :
    ∃ entry : AssetEntry, s.get (.asset asset) = some { entry with reserves } ∧
      s'.get (.asset asset) = some { entry with reserves := reserves' } := by
  obtain ⟨entry, _, hentry, hentry'⟩ := h.asset
  exact ⟨entry, by simp [State.get, Store.get, hentry], by simp [State.get, Store.get, hentry']⟩

theorem put (h : Reordered asset reserves reserves' s s') {k : DataKey} (hk : k ≠ .asset asset)
    (v : k.Val) : Reordered asset reserves reserves' (s.put k v) (s'.put k v) where
  ledger := h.ledger
  inst := h.inst
  instLiveUntil := h.instLiveUntil
  native := h.native
  events := h.events
  entries j hj := by
    rw [State.put_persistent, State.put_persistent, h.ledger]
    by_cases hjk : j = k
    · subst hjk
      rw [Store.entry_put_self, Store.entry_put_self, Store.liveUntil, Store.liveUntil,
        h.entries j hk]
    · rw [Store.entry_put_of_ne _ _ _ hjk, Store.entry_put_of_ne _ _ _ hjk, h.entries j hj]
  asset := by
    obtain ⟨entry, liveUntil, hentry, hentry'⟩ := h.asset
    refine ⟨entry, liveUntil, ?_, ?_⟩
    · rw [State.put_persistent, Store.entry_put_of_ne _ _ _ hk.symm, hentry]
    · rw [State.put_persistent, Store.entry_put_of_ne _ _ _ hk.symm, hentry']

theorem putEntry (h : Reordered asset reserves reserves' s s') (entry : AssetEntry) :
    Reordered asset reserves reserves' (s.put (.asset asset) { entry with reserves })
      (s'.put (.asset asset) { entry with reserves := reserves' }) where
  ledger := h.ledger
  inst := h.inst
  instLiveUntil := h.instLiveUntil
  native := h.native
  events := h.events
  entries j hj := by
    rw [State.put_persistent, State.put_persistent, Store.entry_put_of_ne _ _ _ hj,
      Store.entry_put_of_ne _ _ _ hj, h.entries j hj]
  asset := by
    obtain ⟨_, liveUntil, hold, hold'⟩ := h.asset
    refine ⟨entry, liveUntil, ?_, ?_⟩
    · rw [State.put_persistent, Store.entry_put_self, Store.liveUntil, hold]
      rfl
    · rw [State.put_persistent, Store.entry_put_self, Store.liveUntil, hold']
      rfl

theorem extendEntry (h : Reordered asset reserves reserves' s s') (k : DataKey) :
    Reordered asset reserves reserves' (s.extendEntry k) (s'.extendEntry k) where
  ledger := h.ledger
  inst := h.inst
  instLiveUntil := h.instLiveUntil
  native := h.native
  events := h.events
  entries j hj := by
    rw [State.extendEntry_persistent, State.extendEntry_persistent, h.ledger]
    by_cases hjk : j = k
    · subst hjk
      rw [entry_extendTtl, entry_extendTtl, h.entries j hj]
    · rw [Store.entry_extendTtl_of_ne _ _ _ _ hjk, Store.entry_extendTtl_of_ne _ _ _ _ hjk,
        h.entries j hj]
  asset := by
    obtain ⟨entry, liveUntil, hentry, hentry'⟩ := h.asset
    rw [State.extendEntry_persistent, State.extendEntry_persistent, h.ledger]
    by_cases hk : .asset asset = k
    · subst hk
      rw [entry_extendTtl, entry_extendTtl, hentry, hentry']
      exact ⟨entry, _, rfl, rfl⟩
    · rw [Store.entry_extendTtl_of_ne _ _ _ _ hk, Store.entry_extendTtl_of_ne _ _ _ _ hk]
      exact ⟨entry, liveUntil, hentry, hentry'⟩

theorem extendContract (h : Reordered asset reserves reserves' s s') :
    Reordered asset reserves reserves' s.extendContract s'.extendContract where
  ledger := by simpa using h.ledger
  inst := by simpa using h.inst
  instLiveUntil := by
    rw [State.extendContract_instLiveUntil, State.extendContract_instLiveUntil, h.instLiveUntil,
      h.ledger]
  native := by simpa using h.native
  events := by simpa using h.events
  entries := by simpa using h.entries
  asset := by simpa using h.asset

theorem publish (h : Reordered asset reserves reserves' s s') (event : AttestationAccepted) :
    Reordered asset reserves reserves' (s.publish event) (s'.publish event) where
  ledger := h.ledger
  inst := h.inst
  instLiveUntil := h.instLiveUntil
  native := h.native
  events := by rw [State.publish, State.publish, h.events]
  entries := h.entries
  asset := h.asset

end Reordered

/-! ## The two calls that read the sum -/

section Calls
variable {H : Host} {invocation : Invocation H} {asset : Address}
  {reserves reserves' : List Address}

/-- One step of a call, from two states that differ in the order of the list. -/
def AlikeCalls {α : Type} (invocation : Invocation H) (asset : Address)
    (reserves reserves' : List Address) (x y : Contract H α) : Prop :=
  Tx.Alike invocation (Reordered asset reserves reserves') Eq x y

theorem alike_persistentGet {k : DataKey} (hk : k ≠ .asset asset) :
    AlikeCalls invocation asset reserves reserves' (persistentGet k) (persistentGet k) :=
  .reads fun _ _ h => h.get_eq hk

theorem alike_persistentSet {k : DataKey} (hk : k ≠ .asset asset) (v : k.Val) :
    AlikeCalls invocation asset reserves reserves' (persistentSet k v) (persistentSet k v) :=
  .modify fun _ _ h => h.put hk v

theorem alike_extendEntry (k : DataKey) :
    AlikeCalls invocation asset reserves reserves' (extendEntry k) (extendEntry k) :=
  .modify fun _ _ h => h.extendEntry k

theorem alike_extendContract :
    AlikeCalls invocation asset reserves reserves' extendContract extendContract :=
  .modify fun _ _ h => h.extendContract

theorem alike_ledgerSequence :
    AlikeCalls invocation asset reserves reserves' ledgerSequence ledgerSequence :=
  .reads fun _ _ h => by rw [h.ledger]

theorem alike_requireAuth (address : Address) :
    AlikeCalls invocation asset reserves reserves' (requireAuth address) (requireAuth address) := by
  intro s s' h
  unfold requireAuth
  split
  · exact .ok rfl h
  · exact .error _

theorem alike_verify (inputs proof : Bytes) :
    AlikeCalls invocation asset reserves reserves' (verify inputs proof) (verify inputs proof) := by
  refine .bind_eq (.reads fun _ _ h => by rw [h.inst]) fun stored => ?_
  refine .bind_eq (.orFail _ _) fun verifier => ?_
  exact .bind_eq (.reads fun _ _ _ => rfl) fun answered => .orFail _ _

theorem alike_count : AlikeCalls invocation asset reserves reserves'
    (History.count asset) (History.count asset) :=
  .bind_eq (alike_persistentGet (by simp)) fun _ => .pure rfl

theorem alike_append (attestation : Attestation) :
    AlikeCalls invocation asset reserves reserves'
      (History.append asset attestation) (History.append asset attestation) := by
  refine .bind_eq alike_count fun count => ?_
  refine .bind_eq (.orFail _ _) fun id => ?_
  refine .bind_eq (alike_persistentSet (by simp) _) fun _ => ?_
  refine .bind_eq (alike_persistentSet (by simp) _) fun _ => ?_
  refine .bind_eq (alike_extendEntry _) fun _ => ?_
  exact .bind_eq (alike_extendEntry _) fun _ => .pure rfl

/-- The reads of the entry differ in the order of the list alone. -/
theorem alike_stored : Tx.Alike invocation (Reordered asset reserves reserves')
    (fun stored stored' : Option AssetEntry => ∃ entry : AssetEntry,
      stored = some { entry with reserves } ∧ stored' = some { entry with reserves := reserves' })
    (persistentGet (H := H) (.asset asset)) (persistentGet (.asset asset)) :=
  .reads fun _ _ h => h.exists_entry

theorem alike_reserveSum
    (h : reserveSumFrom (invocation.balance asset) 0 reserves =
      reserveSumFrom (invocation.balance asset) 0 reserves') :
    AlikeCalls invocation asset reserves reserves'
      (reserveSum asset reserves) (reserveSum asset reserves') := by
  refine .bind (Q := fun balance balance' => balance = invocation.balance asset ∧
    balance' = invocation.balance asset) (.reads fun _ _ _ => ⟨rfl, rfl⟩) ?_
  rintro _ _ ⟨rfl, rfl⟩
  rw [ofResult, ofResult, h]
  exact .lift _ _

/-- `submit_attestation` depends on the order of the list through the sum alone. -/
theorem alike_submitAttestation
    (h : reserveSumFrom (invocation.balance asset) 0 reserves =
      reserveSumFrom (invocation.balance asset) 0 reserves')
    (snapshotLedger : U32) (finalRoot : U256) (totalLiabilities : U128) (proof : Bytes) :
    AlikeCalls invocation asset reserves reserves'
      (submitAttestation asset snapshotLedger finalRoot totalLiabilities proof)
      (submitAttestation asset snapshotLedger finalRoot totalLiabilities proof) := by
  refine .bind alike_stored fun _ _ hstored => ?_
  obtain ⟨entry, rfl, rfl⟩ := hstored
  refine .bind (Q := fun e e' => e = { entry with reserves } ∧
    e' = { entry with reserves := reserves' }) (.pure ⟨rfl, rfl⟩) ?_
  rintro _ _ ⟨rfl, rfl⟩
  refine .bind_eq alike_ledgerSequence fun attestedLedger => ?_
  refine .bind_eq (.refuseIf _ _) fun _ => ?_
  refine .bind_eq (.refuseIf _ _) fun _ => ?_
  refine .bind_eq (alike_requireAuth _) fun _ => ?_
  refine .bind_eq (.lift _ _) fun context => ?_
  refine .bind_eq (alike_verify _ _) fun _ => ?_
  refine .bind_eq (alike_reserveSum h) fun reserveSum => ?_
  refine .bind_eq (alike_append _) fun attestationId => ?_
  refine .bind_eq (.modify fun _ _ hR =>
    hR.putEntry { entry with attestation := .filled _ }) fun _ => ?_
  refine .bind_eq (alike_extendEntry _) fun _ => ?_
  refine .bind_eq alike_extendContract fun _ => ?_
  exact .bind_eq (.modify fun _ _ hR => hR.publish _) fun _ => .pure rfl

theorem alike_baseline (observedSum : I128) (slot : AttestationSlot) :
    AlikeCalls invocation asset reserves reserves'
      (baseline asset observedSum slot) (baseline asset observedSum slot) := by
  cases slot with
  | empty => exact .pure rfl
  | filled _ =>
    refine .bind_eq alike_count fun id => ?_
    refine .bind_eq ?_ fun attestation => .pure rfl
    exact .bind_eq (alike_persistentGet (by simp)) fun _ => .orFail _ _

/-- `observe_reserves` depends on the order of the list through the sum alone. -/
theorem alike_observeReserves
    (h : reserveSumFrom (invocation.balance asset) 0 reserves =
      reserveSumFrom (invocation.balance asset) 0 reserves') :
    AlikeCalls invocation asset reserves reserves'
      (observeReserves asset) (observeReserves asset) := by
  refine .bind alike_stored fun _ _ hstored => ?_
  obtain ⟨entry, rfl, rfl⟩ := hstored
  refine .bind (Q := fun e e' => e = { entry with reserves } ∧
    e' = { entry with reserves := reserves' }) (.pure ⟨rfl, rfl⟩) ?_
  rintro _ _ ⟨rfl, rfl⟩
  refine .bind_eq (.bind_eq (alike_persistentGet (by simp)) fun _ => .pure rfl) fun state => ?_
  refine .bind_eq (.orFail _ _) fun observationId => ?_
  refine .bind_eq (alike_reserveSum h) fun observedSum => ?_
  refine .bind_eq (alike_baseline _ _) fun compared => ?_
  refine .bind_eq alike_ledgerSequence fun observedLedger => ?_
  refine .bind_eq (alike_persistentSet (by simp) _) fun _ => ?_
  refine .bind_eq (alike_persistentSet (by simp) _) fun _ => ?_
  refine .bind_eq (alike_extendEntry _) fun _ => ?_
  refine .bind_eq (alike_extendEntry _) fun _ => ?_
  exact .bind_eq alike_extendContract fun _ => .pure rfl

end Calls

/-! ## Every order of the list -/

section Orders
variable {H : Host} {invocation : Invocation H} {s : State} {asset : Address}
  {held : Address → I128} {reserves : List Address}

/-- The property of a reserve set: in every order of its list the sum is exact, the
reserve set hash is the same, and the calls that record the sum answer alike. -/
structure OrderFree (invocation : Invocation H) (s : State) (asset : Address)
    (held : Address → I128) (reserves : List Address) : Prop where
  exact : ∀ reserves', reserves.Perm reserves' → ExactSum invocation s asset held reserves'
  sameSet : ∀ reserves', reserves.Perm reserves' → ∀ value,
    reserveSetHash H.poseidon2 reserves = .ok value ↔
      reserveSetHash H.poseidon2 reserves' = .ok value
  submitted : ∀ reserves', reserves.Perm reserves' → ∀ snapshotLedger finalRoot totalLiabilities
    proof, AlikeCalls invocation asset reserves reserves'
      (submitAttestation asset snapshotLedger finalRoot totalLiabilities proof)
      (submitAttestation asset snapshotLedger finalRoot totalLiabilities proof)
  observed : ∀ reserves', reserves.Perm reserves' →
    AlikeCalls invocation asset reserves reserves' (observeReserves asset) (observeReserves asset)

theorem amounts_sum_perm {reserves' : List Address} (h : reserves.Perm reserves') :
    (amounts held reserves).sum = (amounts held reserves').sum := (h.map _).sum_eq

/-- Two orders that stay in range, or that both leave it, have one result. -/
theorem reserveSumFrom_perm {reserves' : List Address} {balance : Address → Option I128}
    (hreads : ∀ reserve ∈ reserves, balance reserve = some (held reserve))
    (hperm : reserves.Perm reserves')
    (h : Stays (-(2 ^ 127)) I128.MAX 0 (amounts held reserves) ↔
      Stays (-(2 ^ 127)) I128.MAX 0 (amounts held reserves')) :
    reserveSumFrom balance 0 reserves = reserveSumFrom balance 0 reserves' := by
  have hreads' : ∀ reserve ∈ reserves', balance reserve = some (held reserve) :=
    fun reserve hmem => hreads reserve (hperm.mem_iff.mpr hmem)
  by_cases hstays : Stays (-(2 ^ 127)) I128.MAX 0 (amounts held reserves)
  · obtain ⟨total, htotal, hok⟩ := reserveSumFrom_of_stays 0 hreads hstays
    obtain ⟨total', htotal', hok'⟩ :=
      reserveSumFrom_of_stays 0 hreads' (h.mp hstays)
    rw [← amounts_sum_perm hperm, ← htotal] at htotal'
    rw [hok, hok', I128.ext htotal']
  · rw [reserveSumFrom_of_not_stays 0 hreads hstays,
      reserveSumFrom_of_not_stays 0 hreads' (hstays ∘ h.mpr)]

/-- **When the sum of the reserves is exact.**  For one list, when no partial sum leaves
the range or the whole sum does.  For every order of the list, and then in
`submit_attestation` and `observe_reserves`, when the balances above zero alone and the
balances below zero alone stay in range, or the whole sum leaves it. -/
theorem reserveSum_exact_iff
    (hreads : ∀ reserve ∈ reserves, invocation.balance asset reserve = some (held reserve)) :
    (ExactSum invocation s asset held reserves ↔
      (BalanceRange (amounts held reserves).sum →
        Stays (-(2 ^ 127)) I128.MAX 0 (amounts held reserves))) ∧
    (OrderFree invocation s asset held reserves ↔
      (BalanceRange (amounts held reserves).sum →
        -(2 ^ 127) ≤ losses (amounts held reserves) ∧
          gains (amounts held reserves) ≤ I128.MAX)) := by
  have hreads' : ∀ reserves', reserves.Perm reserves' →
      ∀ reserve ∈ reserves', invocation.balance asset reserve = some (held reserve) :=
    fun reserves' hperm reserve hmem => hreads reserve (hperm.mem_iff.mpr hmem)
  refine ⟨exactSum_iff hreads, fun h hrange => ?_, fun h => ?_⟩
  · refine forall_perm_stays_iff.mp fun reserves' hperm => ?_
    refine (exactSum_iff (hreads' reserves' hperm)).mp (h.exact reserves' hperm) ?_
    rwa [← amounts_sum_perm hperm]
  · -- every order stays in range, or none does, because the sum does not
    have hstays : ∀ reserves', reserves.Perm reserves' →
        (Stays (-(2 ^ 127)) I128.MAX 0 (amounts held reserves') ↔
          BalanceRange (amounts held reserves).sum) := by
      intro reserves' hperm
      constructor
      · intro hstays
        simpa [BalanceRange, amounts_sum_perm hperm] using hstays.sum_mem
      · intro hrange
        exact forall_perm_stays_iff.mpr (h hrange) reserves' hperm
    have hsame : ∀ reserves', reserves.Perm reserves' →
        reserveSumFrom (invocation.balance asset) 0 reserves =
          reserveSumFrom (invocation.balance asset) 0 reserves' :=
      fun reserves' hperm => reserveSumFrom_perm hreads hperm
        ((hstays reserves (.refl _)).trans (hstays reserves' hperm).symm)
    exact {
      exact := fun reserves' hperm => (exactSum_iff (hreads' reserves' hperm)).mpr fun hrange =>
        (hstays reserves' hperm).mpr (by rwa [amounts_sum_perm hperm])
      sameSet := fun reserves' hperm value =>
        ⟨reserveSetHash_perm hperm, reserveSetHash_perm hperm.symm⟩
      submitted := fun reserves' hperm => alike_submitAttestation (hsame reserves' hperm)
      observed := fun reserves' hperm => alike_observeReserves (hsame reserves' hperm) }

end Orders

/-! ## Three balances in two orders -/

/-- The largest balance, one unit, and a debt of one unit. -/
def sampleHeld (address : Address) : I128 :=
  if address = sampleAccount 11 then ⟨2 ^ 127 - 1, by norm_num, by norm_num⟩
  else if address = sampleAccount 12 then ⟨1, by norm_num, by norm_num⟩
  else ⟨-1, by norm_num, by norm_num⟩

/-- A call during which the token answers these balances. -/
def sampleBalances : Invocation sampleHost :=
  { sampleInvocation with balance := fun _ address => some (sampleHeld address) }

/-- The two orders of two of the reserves differ: the sum of the first leaves the range
half way. -/
theorem reserveSum_exact_iff_sample :
    (ExactSum sampleBalances sampleBefore (sampleContract 3) sampleHeld
        [sampleAccount 11, sampleAccount 13, sampleAccount 12] ↔
      (BalanceRange (amounts sampleHeld
          [sampleAccount 11, sampleAccount 13, sampleAccount 12]).sum →
        Stays (-(2 ^ 127)) I128.MAX 0 (amounts sampleHeld
          [sampleAccount 11, sampleAccount 13, sampleAccount 12]))) ∧
    (OrderFree sampleBalances sampleBefore (sampleContract 3) sampleHeld
        [sampleAccount 11, sampleAccount 13, sampleAccount 12] ↔
      (BalanceRange (amounts sampleHeld
          [sampleAccount 11, sampleAccount 13, sampleAccount 12]).sum →
        -(2 ^ 127) ≤ losses (amounts sampleHeld
            [sampleAccount 11, sampleAccount 13, sampleAccount 12]) ∧
          gains (amounts sampleHeld
            [sampleAccount 11, sampleAccount 13, sampleAccount 12]) ≤ I128.MAX)) :=
  reserveSum_exact_iff fun _ _ => rfl

/-- The largest balance, one unit, and a debt of one unit sum to the largest balance, and
the sum in this order is refused. -/
theorem reserveSum_refuses_representable :
    ¬ ∀ (H : Host) (invocation : Invocation H) (s : State) (asset : Address)
      (held : Address → I128) (reserves : List Address),
      (∀ reserve ∈ reserves, invocation.balance asset reserve = some (held reserve)) →
      ExactSum invocation s asset held reserves := by
  intro h
  have hexact := h sampleHost sampleBalances sampleBefore (sampleContract 3) sampleHeld
    [sampleAccount 11, sampleAccount 12, sampleAccount 13] fun _ _ => rfl
  refine hexact.overflow.mp ?_ ?_
  · rfl
  · decide +kernel

end ZkPoR
