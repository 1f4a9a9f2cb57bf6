import ZkPoR.RegistryEffect
import ZkPoR.Poseidon2
import ZkPoR.TransitionSystem

/-! # Runs of the registry

An event of a run is a call by anybody, or a step of the world: the ledger moves
forward, and native tokens move between other parties or into the registry.  A
run starts at the deployment, and a call that fails changes nothing.

`RegistryRun.invariant` is the induction of every invariant, and `Calls` names
the successful calls of a run, which the statements about the past refer to.
-/
namespace ZkPoR
open ByteString CheckedInt TypedStore Transaction TransitionSystem
open Contract

/-- An event: a call by anybody, or a step of the ledger and of the native token
that the registry takes no part in. -/
inductive Event (H : Host)
  | call (invocation : Invocation H) (op : Op)
  | world (ledger : LedgerInfo) (native : Address → Int)

/-- The state after an event.  A call that fails keeps nothing.  The ledger number
never falls, and only the registry spends the tokens of the registry. -/
def Event.apply {H : Host} : Event H → State → State
  | call invocation op, s => op.run.commit invocation s
  | world ledger native, s =>
    if s.ledger.sequence ≤ ledger.sequence ∧
        s.native H.currentContract ≤ native H.currentContract then
      { s with ledger, native }
    else s

/-- A state right after the deployment: the constructor succeeded on empty storage. -/
def Deployed (H : Host) (s : State) : Prop :=
  ∃ (invocation : Invocation H) (verifier emailVerifier : Address) (before : State),
    before.inst = .empty ∧ before.persistent = .empty ∧ 0 ≤ before.native H.currentContract ∧
      constructor verifier emailVerifier invocation before = .ok ((), s)

/-- The registry. -/
def registry (H : Host) : Machine State (Event H) where
  start := Deployed H
  apply := Event.apply

/-- A run of the registry from its deployment. -/
abbrev RegistryRun (H : Host) := Run (registry H)

section Runs
variable {H : Host}

/-- What the deployment leaves: nothing is stored but the two verifiers. -/
theorem Deployed.spec {s : State} (h : Deployed H s) :
    s.persistent = .empty ∧ 0 ≤ s.native H.currentContract ∧
      (∃ verifier, s.inst.get .verifier = some verifier) ∧
      ∃ emailVerifier, s.inst.get .emailVerifier = some emailVerifier := by
  obtain ⟨invocation, verifier, emailVerifier, before, _, hempty, hnative, h⟩ := h
  simp only [constructor, invoke, refuseIf, ne_eq, instanceSet, extendContract, Tx.bind_eq_ok,
    Tx.reads_eq_ok, Tx.orFail_eq_ok, exists_eq_right_right, exists_eq_right, Tx.refuseIf_eq_ok,
    Decidable.not_not, Tx.modify_eq_ok, exists_eq_left', exists_const, ↓existsAndEq,
    and_true] at h
  obtain ⟨key, _, _, emailKey, _, _, rfl⟩ := h
  have hne : DataKey.verifier ≠ DataKey.emailVerifier := by decide
  exact ⟨by simpa using hempty, by simpa using hnative,
    ⟨verifier, by simp [Store.get_put_of_ne, hne]⟩, ⟨emailVerifier, by simp⟩⟩

@[simp] theorem Deployed.get {s : State} (h : Deployed H s) (k : DataKey) : s.get k = none := by
  rw [State.get, h.spec.1, Store.get_empty]

/-- A step that writes nothing and takes nothing from the registry. -/
structure Quiet (H : Host) (s s' : State) : Prop where
  persistent : s'.persistent = s.persistent
  inst : s'.inst = s.inst
  sequence : s.ledger.sequence ≤ s'.ledger.sequence
  native : s.native H.currentContract ≤ s'.native H.currentContract

theorem Quiet.get {s s' : State} (h : Quiet H s s') (k : DataKey) : s'.get k = s.get k := by
  rw [State.get, State.get, h.persistent]

/-- An event is a successful call, or it writes nothing. -/
theorem Event.apply_cases (e : Event H) (s : State) :
    (∃ invocation op, e = .call invocation op ∧ op.run invocation s = .ok ((), e.apply s)) ∨
      Quiet H s (e.apply s) := by
  cases e with
  | call invocation op =>
    cases hrun : op.run invocation s with
    | ok p => exact .inl ⟨invocation, op, rfl, by rw [apply, Tx.commit_of_ok hrun, hrun]⟩
    | error fault =>
      right
      rw [apply, Tx.commit_of_error hrun]
      exact ⟨rfl, rfl, BitVec.le_refl _, le_refl _⟩
  | world ledger native =>
    right
    rw [apply]
    split
    · rename_i h
      exact ⟨rfl, rfl, h.1, h.2⟩
    · exact ⟨rfl, rfl, BitVec.le_refl _, le_refl _⟩

variable {invocation : Invocation H} {op : Op} {s s' : State}

namespace RegistryRun
variable (run : RegistryRun H)

/-- The event at instant `t` is a call that succeeds. -/
def Calls (t : Nat) (invocation : Invocation H) (op : Op) : Prop :=
  run.event t = .call invocation op ∧
    op.run invocation (run.state t) = .ok ((), run.state (t + 1))

variable {run}

theorem Calls.effect {t : Nat} (h : run.Calls t invocation op) :
    Effect invocation (run.state t) op (run.state (t + 1)) := run_eq_ok.mp h.2

variable (run)

/-- Every instant is a successful call, or quiet. -/
theorem step (t : Nat) :
    (∃ invocation op, run.Calls t invocation op) ∨
      Quiet H (run.state t) (run.state (t + 1)) := by
  rcases (run.event t).apply_cases (run.state t) with ⟨invocation, op, he, hrun⟩ | hquiet
  · exact .inl ⟨invocation, op, he, hrun⟩
  · exact .inr hquiet

/-- **Invariants of the registry.**  What the deployment establishes, and every
effect and every quiet step keep, holds in every reachable state. -/
theorem invariant {P : State → Prop} (hdeploy : ∀ s, Deployed H s → P s)
    (hquiet : ∀ s s', Quiet H s s' → P s → P s')
    (heffect : ∀ {invocation : Invocation H} {op s s'}, Effect invocation s op s' → P s → P s')
    (t : Nat) : P (run.state t) := by
  refine Run.invariant run hdeploy (fun e s hs => ?_) t
  rcases e.apply_cases s with ⟨invocation, op, _, hrun⟩ | h
  · exact heffect (run_eq_ok.mp hrun) hs
  · exact hquiet s _ h hs

/-- A key that changed was written by a successful call. -/
theorem exists_call_of_ne {t : Nat} {k : DataKey}
    (h : (run.state (t + 1)).get k ≠ (run.state t).get k) :
    ∃ invocation op, run.Calls t invocation op := by
  rcases run.step t with hcall | hquiet
  · exact hcall
  · exact absurd (hquiet.get k) h

/-- A stored value was stored by an earlier call, which the key belongs to. -/
theorem exists_write {t : Nat} {k : DataKey} {v : k.Val} (h : (run.state t).get k = some v) :
    ∃ u < t, (run.state (u + 1)).get k = some v ∧ (run.state (u + 1)).get k ≠ (run.state u).get k ∧
      ∃ invocation op, run.Calls u invocation op ∧ op.writes (run.state u) k := by
  have hstart : (run.state 0).get k ≠ some v := by
    rw [show run.state 0 = run.first from rfl, run.first_start.get]
    exact nofun
  obtain ⟨u, _, hut, hbefore, hafter⟩ := Run.exists_onset run
    (P := fun s => s.get k = some v) (Nat.zero_le t) hstart h
  have hne : (run.state (u + 1)).get k ≠ (run.state u).get k := fun heq => hbefore (heq ▸ hafter)
  obtain ⟨invocation, op, hcall⟩ := run.exists_call_of_ne hne
  exact ⟨u, hut, hafter, hne, invocation, op, hcall,
    (hcall.effect.get_eq_or_writes k).resolve_left hne⟩

/-- The verifiers are those of the deployment. -/
theorem inst_eq (t : Nat) : (run.state t).inst = run.first.inst := by
  induction t with
  | zero => rfl
  | succ t ih =>
    rw [← ih]
    rcases run.step t with ⟨invocation, op, h⟩ | h
    · exact h.effect.inst
    · exact h.inst

end RegistryRun
end Runs

/-! ## A sample deployment

A host, and runs of it, that the theorems with a hypothesis are applied to.
-/

/-- A contract address whose identifier ends in one byte. -/
def sampleContract (byte : UInt8) : Address :=
  .ofPayload (.contractIdHash ⟨List.replicate 31 0 ++ [byte], by simp⟩)

/-- An account address whose key ends in one byte. -/
def sampleAccount (byte : UInt8) : Address :=
  .ofPayload (.accountIdPublicKeyEd25519 ⟨List.replicate 31 0 ++ [byte], by simp⟩)

/-- A four-character asset of the account that ends in 7. -/
def sampleAssetXdr : Bytes :=
  [0, 0, 0, 1] ++ ascii ['U', 'S', 'D', 'C'] ++ [0, 0, 0, 0] ++ List.replicate 31 0 ++ [7]

/-- A host where two verifier keys have the pinned digests, and where one classic
asset has a contract beside the native one. -/
def sampleHost : Host where
  currentContract := sampleContract 1
  networkId := ⟨List.replicate 32 0, by simp⟩
  poseidon2 := Poseidon2.hash
  sha256 bytes := if bytes = [1] then AGGREGATOR_KEY_SHA256 else EMAIL_KEY_SHA256
  deployedAddress bytes :=
    if bytes = NATIVE_ASSET_XDR then some (sampleContract 2)
    else if bytes = sampleAssetXdr then some (sampleContract 3)
    else none
  nativeContract := sampleContract 2
  deployed_native := rfl

/-- Everybody but the registry authorizes, and every contract answers. -/
def sampleInvocation : Invocation sampleHost where
  authorized address := address ≠ sampleContract 1
  not_self := by decide
  vkBytes verifier := if verifier = sampleContract 4 then some [1] else some [2]
  admin _ := none
  balance _ _ := some ⟨5, by norm_num, by norm_num⟩
  verifyProof _ _ _ := some ()
  transferAccepted _ _ _ := true

/-- Empty storage, and a funded account. -/
def sampleBefore : State where
  ledger := { sequence := 100, maxTtl := 1000, minPersistentTtl := 10 }
  inst := .empty
  instLiveUntil := 100
  persistent := .empty
  native address := if address = sampleAccount 9 then 1000000000 else 0
  events := []

/-- The state after the deployment. -/
def sampleFirst : State :=
  (constructor (sampleContract 4) (sampleContract 5)).commit sampleInvocation sampleBefore

theorem sampleFirst_deployed : Deployed sampleHost sampleFirst :=
  ⟨sampleInvocation, sampleContract 4, sampleContract 5, sampleBefore, rfl, rfl, by decide, rfl⟩

/-- The run of a list of calls, one at each instant, and nothing after them. -/
def sampleRun (calls : List Op) : RegistryRun sampleHost where
  first := sampleFirst
  first_start := sampleFirst_deployed
  event t := match calls[t]? with
    | some op => .call sampleInvocation op
    | none => .world sampleBefore.ledger fun _ => -1

def sampleRegistration : Op :=
  .registerAsset (sampleContract 3) (sampleAccount 7) (.classic sampleAssetXdr) [sampleAccount 8]

def sampleKey : DkimKeyInput :=
  ⟨1, 1, ⟨List.replicate 32 0, by simp⟩, ⟨List.replicate 32 0, by simp⟩⟩

/-- An asset with one attestation, one signer key, and one open dispute. -/
def sampleCalls : List Op := [
  sampleRegistration,
  .submitAttestation (sampleContract 3) 100 11 1000 [],
  .registerDkimKey (sampleContract 3) sampleKey,
  .openDispute (sampleContract 3) (sampleAccount 9) none (.email ⟨1, 42, []⟩)]

end ZkPoR
