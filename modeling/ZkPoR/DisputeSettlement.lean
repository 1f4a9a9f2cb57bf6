import ZkPoR.Escrow

/-! # No deposit is stuck

The deadline of a dispute splits the ledgers in two.  Up to it the authority can
answer and nobody can resolve; after it anybody can resolve and nobody can
answer.  In either window the call that is possible reaches no error branch, and
the balance of the registry covers its payout: the first by the bond invariant,
the second by escrow solvency.
-/
namespace ZkPoR
open ByteString CheckedInt TypedStore Transaction TransitionSystem

/-- The native token refuses no transfer that the balance covers. -/
def Transfers {H : Host} (invocation : Invocation H) : Prop :=
  ∀ sender recipient amount, invocation.transferAccepted sender recipient amount = true

/-- **What is possible with an open dispute**, before and after its deadline. -/
structure Settles (H : Host) (s : State) (asset : Address) (targetId : U64) (identifier : U256)
    (d : Dispute) : Prop where
  covered : 100000000 ≤ s.native H.currentContract
  lateResolve : d.deadline < s.ledger.sequence → ∀ invocation : Invocation H,
    Transfers invocation →
    ∃ s', resolveDispute asset targetId identifier invocation s = .ok ((), s')
  lateAnswer : d.deadline < s.ledger.sequence → ∀ (invocation : Invocation H) evidence,
    evidence.id = identifier →
    answerDispute asset targetId evidence invocation s = .error (.error .answerWindowClosed)
  earlyResolve : s.ledger.sequence ≤ d.deadline → ∀ invocation : Invocation H,
    resolveDispute asset targetId identifier invocation s = .error (.error .answerWindowOpen)
  /-- The target is on record, and every included evidence under its root answers. -/
  earlyAnswer : s.ledger.sequence ≤ d.deadline →
    ∃ entry target, s.get (.asset asset) = some entry ∧
      s.get (.attestation asset targetId) = some target ∧
      ∀ (invocation : Invocation H) evidence, Transfers invocation →
        evidence.id = identifier → inclusion H.poseidon2 target.finalRoot evidence = .ok () →
        invocation.authorized entry.authority = true →
        ∃ s', answerDispute asset targetId evidence invocation s = .ok ((), s')

section
variable {H : Host} {s : State} {asset : Address} {targetId : U64} {identifier : U256}
  {d : Dispute}

/-- What settling a dispute needs of a state. -/
structure Settleable (H : Host) (s : State) (asset : Address) (targetId : U64)
    (identifier : U256) (d : Dispute) (entry : AssetEntry) (target : Attestation) : Prop where
  stored : s.get (.dispute asset targetId identifier) = some d
  stillOpen : d.status = .open
  registered : s.get (.asset asset) = some entry
  recorded : s.get (.attestation asset targetId) = some target
  bond : BondInvariant asset s
  covered : 100000000 ≤ s.native H.currentContract

variable {entry : AssetEntry} {target : Attestation}

theorem Settleable.settles (h : Settleable H s asset targetId identifier d entry target) :
    Settles H s asset targetId identifier d where
  covered := h.covered
  lateResolve hlate invocation htransfers := by
    have hava := h.bond.available
    have hbur := h.bond.burned
    have hmax := h.bond.bounded
    obtain ⟨burned, hburns⟩ := I128.exists_checkedAdd
      (a := (s.bond asset).burned) (b := (s.bond asset).available) (by omega)
    exact ⟨_, resolveDispute_effect.mpr
      (.resolveDispute h.stored h.stillOpen hlate hburns h.covered (htransfers _ _ _))⟩
  lateAnswer hlate invocation evidence hid := by
    subst hid
    simp [answerDispute, h.registered, h.stored, h.stillOpen, hlate]
  earlyResolve hearly invocation := by
    simp [resolveDispute, h.stored, h.stillOpen, hearly]
  earlyAnswer hearly := by
    refine ⟨entry, target, h.registered, h.recorded,
      fun invocation evidence htransfers hid hincluded hauth => ?_⟩
    subst hid
    exact ⟨_, answerDispute_effect.mpr (.answerDispute h.registered h.stored h.stillOpen hearly
      h.recorded hincluded hauth h.covered (htransfers _ _ _))⟩

end

/-- A bond is never negative, so the sum of all bonds is not. -/
theorem bondTotal_nonneg {s : State} (h : ∀ asset, BondInvariant asset s) : 0 ≤ s.bondTotal := by
  refine Store.total_nonneg _ fun k => ?_
  change 0 ≤ s.worth k bondOf
  cases k with
  | bond asset =>
    rw [State.worth_bondOf]
    exact Int.add_nonneg (h asset).available (h asset).burned
  | _ =>
    rw [State.worth_eq]
    cases s.get _ <;> exact le_refl _

/-- A solvent registry holds the deposit of every open dispute. -/
theorem Solvent.deposit {H : Host} {s : State} (h : Solvent H s)
    (hbonds : ∀ asset, BondInvariant asset s) {asset : Address} {targetId : U64}
    {identifier : U256} {d : Dispute} (hd : s.get (.dispute asset targetId identifier) = some d)
    (hopen : d.status = .open) : 100000000 ≤ s.native H.currentContract := by
  have hmem : .dispute asset targetId identifier ∈ s.openDisputes :=
    s.mem_openDisputes.mpr ⟨asset, targetId, identifier, d, rfl, hd, hopen⟩
  have hcard : 1 ≤ s.openDisputes.card := Finset.card_pos.mpr ⟨_, hmem⟩
  have hbond := bondTotal_nonneg hbonds
  have hcovered := h.covered
  rw [State.owed_eq, deposit_val] at hcovered
  omega

namespace RegistryRun
variable {H : Host} (run : RegistryRun H) {asset : Address} {targetId : U64} {identifier : U256}

/-- **No deposit is stuck.**  In every reachable state, at every ledger, an open
dispute can be settled by the one call that its deadline allows. -/
theorem deposit_never_stuck (t : Nat) (ledger : LedgerInfo) {d : Dispute}
    (hd : (run.state t).get (.dispute asset targetId identifier) = some d)
    (hopen : d.status = .open) :
    Settles H { run.state t with ledger } asset targetId identifier d := by
  obtain ⟨u, hu, opener, opening, target, hopened⟩ := run.exists_openedBy hd
  obtain ⟨entry₀, hentry₀⟩ := hopened.registered
  obtain ⟨entry, hentry, -⟩ := run.entry_stable hu.le hentry₀
  have hbond := run.bondInvariant asset t
  have hsettleable : Settleable H { run.state t with ledger } asset targetId identifier d entry
      target :=
    { stored := hd
      stillOpen := hopen
      registered := hentry
      recorded := run.record_stable asset hu.le hopened.target
      bond := ⟨hbond.available, hbond.burned, hbond.bounded, hbond.burned_eq, hbond.unburned⟩
      covered := (run.solvent t).deposit (fun a => run.bondInvariant a t) hd hopen }
  exact hsettleable.settles

theorem sample_open : ((sampleRun sampleCalls).state 4).get (.dispute (sampleContract 3) 1 42) =
    some (.new (sampleAccount 9) (.email 1) 1 42 100 51940) := by
  decide +kernel

/-- The open dispute of the sample run, at a ledger after its deadline. -/
theorem deposit_never_stuck_sample :
    Settles sampleHost
      { (sampleRun sampleCalls).state 4 with
        ledger := { sampleBefore.ledger with sequence := 60000 } }
      (sampleContract 3) 1 42 (.new (sampleAccount 9) (.email 1) 1 42 100 51940) :=
  deposit_never_stuck (sampleRun sampleCalls) 4 _ sample_open rfl

end RegistryRun
end ZkPoR
