import ZkPoR.AttestationHistory
import ZkPoR.EntryAuthorisation

/-! # The lifecycle of a dispute

Three functions write a dispute record: one creates it under a fresh key, and two
close it, on either side of its deadline.  `DisputeWrite` lists them with what
they checked.  A record keeps its terms, closes at most once, and its deposit
leaves the registry in the step that closes it and in no other.
-/
namespace ZkPoR
open ByteString CheckedInt TypedStore Transaction TransitionSystem

/-- A write of a dispute: the call, the record before it, the record after it, and
the native balances after it. -/
inductive DisputeWrite {H : Host} (invocation : Invocation H) (s : State) (asset : Address)
    (targetId : U64) : U256 → Op → Option Dispute → Dispute → (Address → Int) → Prop
  | create {disputer choice evidence entry deadline} {target : Attestation}
      (registered : s.get (.asset asset) = some entry)
      (chosen : s.targetOf asset choice = targetId)
      (recorded : s.get (.attestation asset targetId) = some target)
      (deadlineExact : deadline.toNat = s.ledger.sequence.toNat + ANSWER_WINDOW_LEDGERS.toNat)
      (auth : invocation.authorized disputer = true) :
      DisputeWrite invocation s asset targetId evidence.identifier
        (.openDispute asset disputer choice evidence) none
        (.new disputer evidence.origin targetId evidence.identifier s.ledger.sequence deadline)
        (moveFunds s.native disputer H.currentContract 100000000)
  | answer {evidence entry} {d : Dispute} {target : Attestation}
      (registered : s.get (.asset asset) = some entry)
      (stillOpen : d.status = .open)
      (inWindow : s.ledger.sequence ≤ d.deadline)
      (recorded : s.get (.attestation asset targetId) = some target)
      (included : inclusion H.poseidon2 target.finalRoot evidence = .ok ())
      (auth : invocation.authorized entry.authority = true) :
      DisputeWrite invocation s asset targetId evidence.id (.answerDispute asset targetId evidence)
        (some d) (d.answer s.ledger.sequence)
        (moveFunds s.native H.currentContract entry.authority 100000000)
  | resolve {id} {d : Dispute}
      (stillOpen : d.status = .open)
      (afterWindow : d.deadline < s.ledger.sequence) :
      DisputeWrite invocation s asset targetId id (.resolveDispute asset targetId id) (some d)
        (d.omit s.ledger.sequence (s.bond asset).available)
        (moveFunds s.native H.currentContract d.disputer 100000000)

/-- Two records have the same terms. -/
structure Dispute.SameTerms (d e : Dispute) : Prop where
  disputer : e.disputer = d.disputer
  origin : e.origin = d.origin
  targetId : e.targetId = d.targetId
  identifier : e.identifier = d.identifier
  openedLedger : e.openedLedger = d.openedLedger
  deadline : e.deadline = d.deadline

theorem Dispute.SameTerms.refl (d : Dispute) : d.SameTerms d := ⟨rfl, rfl, rfl, rfl, rfl, rfl⟩

theorem Dispute.SameTerms.trans {d e f : Dispute} (h : d.SameTerms e) (h' : e.SameTerms f) :
    d.SameTerms f :=
  ⟨h'.1.trans h.1, h'.2.trans h.2, h'.3.trans h.3, h'.4.trans h.4, h'.5.trans h.5, h'.6.trans h.6⟩

section Steps
variable {H : Host} {invocation : Invocation H} {op : Op} {s s' : State} {asset : Address}
  {targetId : U64} {identifier : U256}

/-- A call leaves a dispute alone, or writes it in one of the three ways. -/
theorem Effect.dispute_cases (h : Effect invocation s op s') (asset : Address) (targetId : U64)
    (identifier : U256) :
    s'.get (.dispute asset targetId identifier) = s.get (.dispute asset targetId identifier) ∨
      ∃ d, s'.get (.dispute asset targetId identifier) = some d ∧
        DisputeWrite invocation s asset targetId identifier op
          (s.get (.dispute asset targetId identifier)) d s'.native := by
  rcases h.get_eq_or_writes (.dispute asset targetId identifier) with heq | hwrites
  · exact .inl heq
  · right
    cases h with
    | openDispute registered recorded notBefore recent proven fresh deadlineExact auth =>
      simp only [Op.writes, DataKey.dispute.injEq] at hwrites
      obtain ⟨rfl, rfl, rfl⟩ := hwrites
      refine ⟨_, State.get_save_self .., ?_⟩
      rw [fresh, State.move_native, State.save_native]
      exact .create registered rfl recorded deadlineExact auth
    | answerDispute registered stored stillOpen inWindow recorded included auth =>
      simp only [Op.writes, DataKey.dispute.injEq] at hwrites
      obtain ⟨rfl, rfl, rfl⟩ := hwrites
      refine ⟨_, State.get_save_self .., ?_⟩
      rw [stored, State.move_native, State.save_native]
      exact .answer registered stillOpen inWindow recorded included auth
    | resolveDispute stored stillOpen afterWindow =>
      simp only [Op.writes, reduceCtorEq, DataKey.dispute.injEq, false_or] at hwrites
      obtain ⟨rfl, rfl, rfl⟩ := hwrites
      refine ⟨_, State.get_save_self .., ?_⟩
      rw [stored, State.move_native, State.save_native, State.save_native]
      exact .resolve stillOpen afterWindow
    | _ => simp [Op.writes] at hwrites

/-- A write of a stored record finds it open, closes it, and keeps its terms. -/
theorem DisputeWrite.closes {d e : Dispute} {native : Address → Int}
    (h : DisputeWrite invocation s asset targetId identifier op (some d) e native) :
    d.status = .open ∧ e.status ≠ .open ∧ d.SameTerms e := by
  cases h with
  | answer _ stillOpen => exact ⟨stillOpen, by simp [Dispute.answer], rfl, rfl, rfl, rfl, rfl, rfl⟩
  | resolve stillOpen => exact ⟨stillOpen, by simp [Dispute.omit], rfl, rfl, rfl, rfl, rfl, rfl⟩

/-- A call writes at most one dispute. -/
theorem Op.dispute_unique {a a' : Address} {t t' : U64} {i i' : U256}
    (h : op.writes s (.dispute a t i)) (h' : op.writes s (.dispute a' t' i')) :
    DataKey.dispute a t i = .dispute a' t' i' := by
  cases op <;> simp [Op.writes] at h h' <;> grind

/-- Whoever opened a stored dispute is not the registry. -/
def DisputersApart (H : Host) (s : State) : Prop :=
  ∀ asset targetId identifier d, s.get (.dispute asset targetId identifier) = some d →
    d.disputer ≠ H.currentContract

theorem DisputersApart.step (h : Effect invocation s op s') (hi : DisputersApart H s) :
    DisputersApart H s' := by
  intro asset targetId identifier d hd
  rcases h.dispute_cases asset targetId identifier with heq | ⟨e, he, hwrite⟩
  · exact hi asset targetId identifier d (heq ▸ hd)
  · obtain rfl : e = d := Option.some.inj (he.symm.trans hd)
    cases hold : s.get (.dispute asset targetId identifier) with
    | none =>
      rw [hold] at hwrite
      generalize s'.native = native at hwrite
      cases hwrite with
      | create _ _ _ _ auth => exact Contract.ne_self_of_authorized auth
    | some old =>
      rw [hold] at hwrite
      rw [hwrite.closes.2.2.disputer]
      exact hi asset targetId identifier old hold

/-- A dispute closes in a step: it is open before, and it is not open after. -/
def State.Closes (s s' : State) (asset : Address) (targetId : U64) (identifier : U256) : Prop :=
  ∃ d e, s.get (.dispute asset targetId identifier) = some d ∧ d.status = .open ∧
    s'.get (.dispute asset targetId identifier) = some e ∧ e.status ≠ .open

/-- The registry pays only in a call that closes a dispute. -/
theorem Effect.closes_of_outflow (h : Effect invocation s op s')
    (hpays : s'.native H.currentContract < s.native H.currentContract) :
    ∃ asset targetId identifier, s.Closes s' asset targetId identifier := by
  cases h with
  | fundBond _ positive _ _ auth =>
    rw [State.move_native, State.save_native,
      moveFunds_recipient (Contract.ne_self_of_authorized auth)] at hpays
    omega
  | openDispute _ _ _ _ _ _ _ auth =>
    rw [State.move_native, State.save_native,
      moveFunds_recipient (Contract.ne_self_of_authorized auth), deposit_val] at hpays
    omega
  | answerDispute registered stored stillOpen =>
    exact ⟨_, _, _, _, _, stored, stillOpen, State.get_save_self .., by simp [Dispute.answer]⟩
  | resolveDispute stored stillOpen =>
    exact ⟨_, _, _, _, _, stored, stillOpen, State.get_save_self .., by simp [Dispute.omit]⟩
  | _ => simp at hpays

end Steps

/-! ## Disputes over a whole run -/

namespace RegistryRun
variable {H : Host} (run : RegistryRun H) {asset : Address} {targetId : U64} {identifier : U256}

theorem disputersApart (t : Nat) : DisputersApart H (run.state t) :=
  run.invariant (fun _ h _ _ _ d hd => by simp [h.get] at hd)
    (fun _ _ hq hi _ _ _ d hd => hi _ _ _ d (hq.get _ ▸ hd)) (fun h hi => hi.step h) t

/-- Every step leaves a dispute alone, or is a call that writes it. -/
theorem dispute_step (t : Nat) (asset : Address) (targetId : U64) (identifier : U256) :
    (run.state (t + 1)).get (.dispute asset targetId identifier) =
        (run.state t).get (.dispute asset targetId identifier) ∨
      ∃ invocation op d, run.Calls t invocation op ∧
        (run.state (t + 1)).get (.dispute asset targetId identifier) = some d ∧
        DisputeWrite invocation (run.state t) asset targetId identifier op
          ((run.state t).get (.dispute asset targetId identifier)) d (run.state (t + 1)).native := by
  rcases run.step t with ⟨invocation, op, hcall⟩ | hquiet
  · rcases hcall.effect.dispute_cases asset targetId identifier with heq | ⟨d, hd, hwrite⟩
    · exact .inl heq
    · exact .inr ⟨invocation, op, d, hcall, hd, hwrite⟩
  · exact .inl (hquiet.get _)

/-- A record stays with its terms, and a closed record stays as it is. -/
theorem dispute_stable {t u : Nat} (htu : t ≤ u) {d : Dispute}
    (h : (run.state t).get (.dispute asset targetId identifier) = some d) :
    ∃ e, (run.state u).get (.dispute asset targetId identifier) = some e ∧ d.SameTerms e ∧
      (d.status ≠ .open → e = d) := by
  refine Run.stable run (P := fun s => ∃ e, s.get (.dispute asset targetId identifier) = some e ∧
    d.SameTerms e ∧ (d.status ≠ .open → e = d)) (fun v hv => ?_) htu ⟨d, h, .refl d, fun _ => rfl⟩
  obtain ⟨e, he, hterms, hclosed⟩ := hv
  rcases run.dispute_step v asset targetId identifier with heq | ⟨_, _, f, _, hf, hwrite⟩
  · exact ⟨e, heq ▸ he, hterms, hclosed⟩
  · rw [he] at hwrite
    obtain ⟨hopen, -, hterms'⟩ := hwrite.closes
    exact ⟨f, hf, hterms.trans hterms', fun hd => absurd (hclosed hd ▸ hopen) hd⟩

/-- **The call that opened a dispute.**  It found nothing under the key, and it
fixed the terms of the record and the target. -/
structure OpenedBy (asset : Address) (targetId : U64) (identifier : U256) (d : Dispute) (u : Nat)
    (invocation : Invocation H) (evidence : DisputeEvidence) (target : Attestation) : Prop where
  call : ∃ choice, run.Calls u invocation (.openDispute asset d.disputer choice evidence) ∧
    (run.state u).targetOf asset choice = targetId
  auth : invocation.authorized d.disputer = true
  fresh : (run.state u).get (.dispute asset targetId identifier) = none
  stored : (run.state (u + 1)).get (.dispute asset targetId identifier) =
    some (.new d.disputer d.origin targetId identifier d.openedLedger d.deadline)
  registered : ∃ entry, (run.state u).get (.asset asset) = some entry
  target : (run.state u).get (.attestation asset targetId) = some target
  about : evidence.identifier = identifier
  terms : d.origin = evidence.origin ∧ d.targetId = targetId ∧ d.identifier = identifier
  openedLedger : d.openedLedger = (run.state u).ledger.sequence
  deadline : d.deadline.toNat = d.openedLedger.toNat + 51840

theorem OpenedBy.of_sameTerms {run : RegistryRun H} {d e : Dispute} {u : Nat}
    {invocation : Invocation H} {evidence : DisputeEvidence} {target : Attestation}
    (h : run.OpenedBy asset targetId identifier d u invocation evidence target)
    (hterms : d.SameTerms e) :
    run.OpenedBy asset targetId identifier e u invocation evidence target := by
  obtain ⟨hdisputer, horigin, htarget, hidentifier, hopened, hdeadline⟩ := hterms
  constructor
  · rw [hdisputer]
    exact h.call
  · rw [hdisputer]
    exact h.auth
  · exact h.fresh
  · rw [hdisputer, horigin, hopened, hdeadline]
    exact h.stored
  · exact h.registered
  · exact h.target
  · exact h.about
  · rw [horigin, htarget, hidentifier]
    exact h.terms
  · rw [hopened]
    exact h.openedLedger
  · rw [hdeadline, hopened]
    exact h.deadline

/-- Every record was opened by an earlier call. -/
theorem exists_openedBy {t : Nat} {d : Dispute}
    (h : (run.state t).get (.dispute asset targetId identifier) = some d) :
    ∃ u < t, ∃ invocation evidence target,
      run.OpenedBy asset targetId identifier d u invocation evidence target := by
  induction t generalizing d with
  | zero =>
    rw [show run.state 0 = run.first from rfl, run.first_start.get] at h
    cases h
  | succ t ih =>
    rcases run.dispute_step t asset targetId identifier with heq | ⟨_, _, e, hcall, he, hwrite⟩
    · obtain ⟨u, hu, hopened⟩ := ih (heq ▸ h)
      exact ⟨u, by omega, hopened⟩
    · obtain rfl : e = d := Option.some.inj (he.symm.trans h)
      cases hold : (run.state t).get (.dispute asset targetId identifier) with
      | some old =>
        rw [hold] at hwrite
        obtain ⟨u, hu, invocation, evidence, target, hopened⟩ := ih hold
        exact ⟨u, by omega, invocation, evidence, target,
          hopened.of_sameTerms hwrite.closes.2.2⟩
      | none =>
        rw [hold] at hwrite
        generalize (run.state (t + 1)).native = native at hwrite
        cases hwrite with
        | create registered chosen recorded deadlineExact auth =>
          exact ⟨t, Nat.lt_succ_self t, _, _, _, ⟨_, hcall, chosen⟩, auth, hold, he,
            ⟨_, registered⟩, recorded, rfl, ⟨rfl, rfl, rfl⟩, rfl, deadlineExact⟩

/-- A successful opening finds nothing under its key and leaves a record. -/
theorem opening_spec {u : Nat} {invocation : Invocation H} {disputer : Address}
    {choice : Option U64} {evidence : DisputeEvidence}
    (h : run.Calls u invocation (.openDispute asset disputer choice evidence))
    (htarget : (run.state u).targetOf asset choice = targetId)
    (habout : evidence.identifier = identifier) :
    (run.state u).get (.dispute asset targetId identifier) = none ∧
      ∃ d, (run.state (u + 1)).get (.dispute asset targetId identifier) = some d := by
  have heffect := h.effect
  generalize run.state (u + 1) = after at heffect
  subst htarget habout
  cases heffect with
  | openDispute _ _ _ _ _ fresh => exact ⟨fresh, _, State.get_save_self ..⟩

/-- Under one key at most one call opens a dispute, whatever evidence it carries
and whoever makes it. -/
theorem opening_unique {u v : Nat} {invocation invocation' : Invocation H}
    {disputer disputer' : Address} {choice choice' : Option U64}
    {evidence evidence' : DisputeEvidence}
    (hu : run.Calls u invocation (.openDispute asset disputer choice evidence))
    (hv : run.Calls v invocation' (.openDispute asset disputer' choice' evidence'))
    (htarget : (run.state u).targetOf asset choice = (run.state v).targetOf asset choice')
    (habout : evidence.identifier = evidence'.identifier) : u = v := by
  have hu' := run.opening_spec hu rfl rfl
  have hv' := run.opening_spec hv htarget.symm habout.symm
  have hlt : ∀ {u v : Nat} {k : U64} {i : U256},
      (∃ d, (run.state (u + 1)).get (.dispute asset k i) = some d) →
      (run.state v).get (.dispute asset k i) = none → ¬ u < v := by
    rintro u v k i ⟨d, hd⟩ hnone huv
    obtain ⟨e, he, -⟩ := run.dispute_stable (show u + 1 ≤ v by omega) hd
    rw [hnone] at he
    cases he
  exact Nat.le_antisymm (Nat.le_of_not_lt (hlt hv'.2 hu'.1))
    (Nat.le_of_not_lt (hlt hu'.2 hv'.1))

/-- A record that becomes answered does so in a call of the authority, in time, and
with an inclusion under the root that the target had at the opening. -/
theorem answered_spec {t : Nat} {d e : Dispute}
    (hd : (run.state t).get (.dispute asset targetId identifier) = some d)
    (hopen : d.status = .open)
    (he : (run.state (t + 1)).get (.dispute asset targetId identifier) = some e)
    (hstatus : e.status = .answered) :
    ∃ invocation evidence entry u opener opening target,
      run.Calls t invocation (.answerDispute asset targetId evidence) ∧
      (run.state t).get (.asset asset) = some entry ∧
      invocation.authorized entry.authority = true ∧
      (run.state t).ledger.sequence ≤ d.deadline ∧
      evidence.id = identifier ∧
      u < t ∧ run.OpenedBy asset targetId identifier d u opener opening target ∧
      inclusion H.poseidon2 target.finalRoot evidence = .ok () ∧
      (run.state (t + 1)).native =
        moveFunds (run.state t).native H.currentContract entry.authority 100000000 := by
  rcases run.dispute_step t asset targetId identifier with heq | ⟨_, _, f, hcall, hf, hwrite⟩
  · rw [heq, hd, Option.some.injEq] at he
    rw [← he, hopen] at hstatus
    cases hstatus
  · obtain rfl : f = e := Option.some.inj (hf.symm.trans he)
    obtain ⟨u, hu, opener, opening, target, hopened⟩ := run.exists_openedBy hd
    have htarget := run.record_stable asset hu.le hopened.target
    rw [hd] at hwrite
    generalize (run.state (t + 1)).native = native at hwrite ⊢
    cases hwrite with
    | answer registered stillOpen inWindow recorded included auth =>
      obtain rfl := Option.some.inj (htarget.symm.trans recorded)
      exact ⟨_, _, _, u, opener, opening, _, hcall, registered, auth, inWindow, rfl, hu, hopened,
        included, rfl⟩
    | resolve => simp [Dispute.omit] at hstatus

/-- A record that becomes proven does so after its deadline. -/
theorem omitted_spec {t : Nat} {d e : Dispute}
    (hd : (run.state t).get (.dispute asset targetId identifier) = some d)
    (hopen : d.status = .open)
    (he : (run.state (t + 1)).get (.dispute asset targetId identifier) = some e)
    (hstatus : e.status = .omissionProven) :
    ∃ invocation, run.Calls t invocation (.resolveDispute asset targetId identifier) ∧
      d.deadline < (run.state t).ledger.sequence ∧
      (run.state (t + 1)).native =
        moveFunds (run.state t).native H.currentContract d.disputer 100000000 := by
  rcases run.dispute_step t asset targetId identifier with heq | ⟨_, _, f, hcall, hf, hwrite⟩
  · rw [heq, hd, Option.some.injEq] at he
    rw [← he, hopen] at hstatus
    cases hstatus
  · obtain rfl : f = e := Option.some.inj (hf.symm.trans he)
    rw [hd] at hwrite
    generalize (run.state (t + 1)).native = native at hwrite ⊢
    cases hwrite with
    | answer => simp [Dispute.answer] at hstatus
    | resolve stillOpen afterWindow => exact ⟨_, hcall, afterWindow, rfl⟩

/-- In one step at most one dispute closes. -/
theorem closes_unique {t : Nat} {a a' : Address} {i i' : U64} {x x' : U256}
    (h : (run.state t).Closes (run.state (t + 1)) a i x)
    (h' : (run.state t).Closes (run.state (t + 1)) a' i' x') :
    DataKey.dispute a i x = .dispute a' i' x' := by
  have hchanged : ∀ {a i x}, (run.state t).Closes (run.state (t + 1)) a i x →
      (run.state (t + 1)).get (.dispute a i x) ≠ (run.state t).get (.dispute a i x) := by
    rintro a i x ⟨d, e, hd, hopen, he, hclosed⟩ heq
    obtain rfl : e = d := by
      rw [he, hd] at heq
      exact Option.some.inj heq
    exact hclosed hopen
  obtain ⟨invocation, op, hcall⟩ := run.exists_call_of_ne (hchanged h)
  have hwrites := fun {a i x} hc =>
    (hcall.effect.get_eq_or_writes (.dispute a i x)).resolve_left (hchanged hc)
  exact Op.dispute_unique (hwrites h) (hwrites h')

/-- The registry pays only in the step that closes a dispute. -/
theorem closes_of_outflow {t : Nat}
    (h : (run.state (t + 1)).native H.currentContract <
      (run.state t).native H.currentContract) :
    ∃ a i x, (run.state t).Closes (run.state (t + 1)) a i x := by
  rcases run.step t with ⟨invocation, op, hcall⟩ | hquiet
  · exact hcall.effect.closes_of_outflow h
  · exact absurd hquiet.native (by omega)

/-- A step that closes a dispute pays one deposit. -/
theorem outflow_of_closes {t : Nat}
    (h : (run.state t).Closes (run.state (t + 1)) asset targetId identifier) :
    (run.state (t + 1)).native H.currentContract =
      (run.state t).native H.currentContract - 100000000 := by
  obtain ⟨d, e, hd, hopen, he, hclosed⟩ := h
  rcases hstatus : e.status with _ | _ | _
  · exact absurd hstatus hclosed
  · obtain ⟨invocation, _, entry, _, _, _, _, _, _, hauth, _, _, _, _, _, hnative⟩ :=
      run.answered_spec hd hopen he hstatus
    rw [hnative, moveFunds_sender (Contract.ne_self_of_authorized hauth).symm]
  · obtain ⟨invocation, _, _, hnative⟩ := run.omitted_spec hd hopen he hstatus
    rw [hnative, moveFunds_sender (run.disputersApart t _ _ _ d hd).symm]

/-- **The lifecycle of the disputes under one key.** -/
structure DisputeLifecycle (asset : Address) (targetId : U64) (identifier : U256) : Prop where
  /-- At most one record is ever created under the key. -/
  openedOnce : ∀ u v invocation invocation' disputer disputer' choice choice' evidence evidence',
    run.Calls u invocation (.openDispute asset disputer choice evidence) →
    run.Calls v invocation' (.openDispute asset disputer' choice' evidence') →
    (run.state u).targetOf asset choice = targetId → evidence.identifier = identifier →
    (run.state v).targetOf asset choice' = targetId → evidence'.identifier = identifier → u = v
  /-- A record was opened by a call, which fixed its terms. -/
  opened : ∀ t d, (run.state t).get (.dispute asset targetId identifier) = some d →
    ∃ u < t, ∃ invocation evidence target,
      run.OpenedBy asset targetId identifier d u invocation evidence target
  /-- The terms never change, and a closed record never changes at all. -/
  fixed : ∀ t u d, t ≤ u → (run.state t).get (.dispute asset targetId identifier) = some d →
    ∃ e, (run.state u).get (.dispute asset targetId identifier) = some e ∧ d.SameTerms e ∧
      (d.status ≠ .open → e = d)
  /-- An answer is authorized, in time, and included; it pays the authority. -/
  answered : ∀ t d e, (run.state t).get (.dispute asset targetId identifier) = some d →
    d.status = .open → (run.state (t + 1)).get (.dispute asset targetId identifier) = some e →
    e.status = .answered →
    ∃ invocation evidence entry u opener opening target,
      run.Calls t invocation (.answerDispute asset targetId evidence) ∧
      (run.state t).get (.asset asset) = some entry ∧
      invocation.authorized entry.authority = true ∧
      (run.state t).ledger.sequence ≤ d.deadline ∧
      evidence.id = identifier ∧
      u < t ∧ run.OpenedBy asset targetId identifier d u opener opening target ∧
      inclusion H.poseidon2 target.finalRoot evidence = .ok () ∧
      (run.state (t + 1)).native =
        moveFunds (run.state t).native H.currentContract entry.authority 100000000
  /-- An omission is proven after the deadline; it pays the disputer. -/
  omitted : ∀ t d e, (run.state t).get (.dispute asset targetId identifier) = some d →
    d.status = .open → (run.state (t + 1)).get (.dispute asset targetId identifier) = some e →
    e.status = .omissionProven →
    ∃ invocation, run.Calls t invocation (.resolveDispute asset targetId identifier) ∧
      d.deadline < (run.state t).ledger.sequence ∧
      (run.state (t + 1)).native =
        moveFunds (run.state t).native H.currentContract d.disputer 100000000
  /-- The step that closes the record pays one deposit, and closes no other. -/
  paid : ∀ t, (run.state t).Closes (run.state (t + 1)) asset targetId identifier →
    (run.state (t + 1)).native H.currentContract =
        (run.state t).native H.currentContract - 100000000 ∧
      ∀ a i x, (run.state t).Closes (run.state (t + 1)) a i x →
        DataKey.dispute a i x = .dispute asset targetId identifier
  /-- The registry pays in no other step. -/
  paidOnly : ∀ t, (run.state (t + 1)).native H.currentContract <
      (run.state t).native H.currentContract →
    ∃ a i x, (run.state t).Closes (run.state (t + 1)) a i x

/-- **Every dispute runs this lifecycle**, from the deployment on. -/
theorem dispute_lifecycle (run : RegistryRun H) (asset : Address) (targetId : U64)
    (identifier : U256) : run.DisputeLifecycle asset targetId identifier where
  openedOnce _ _ _ _ _ _ _ _ _ _ hu hv htarget habout htarget' habout' :=
    run.opening_unique hu hv (htarget.trans htarget'.symm) (habout.trans habout'.symm)
  opened _ _ h := run.exists_openedBy h
  fixed _ _ _ htu h := run.dispute_stable htu h
  answered _ _ _ hd hopen he hstatus := run.answered_spec hd hopen he hstatus
  omitted _ _ _ hd hopen he hstatus := run.omitted_spec hd hopen he hstatus
  paid _ h := ⟨run.outflow_of_closes h, fun _ _ _ h' => run.closes_unique h' h⟩
  paidOnly _ h := run.closes_of_outflow h

end RegistryRun
end ZkPoR
