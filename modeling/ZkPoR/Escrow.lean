import ZkPoR.DisputeLifecycle

/-! # Escrow

The registry holds native tokens for two reasons: the deposit of every open
dispute, and the bond of every asset, burned or not.  `State.owed` adds both over
the whole storage, and every call moves the tokens by exactly the change of that
sum, so the balance of the registry covers it in every reachable state.
-/
namespace ZkPoR
open CheckedInt TypedStore Transaction TransitionSystem

/-- The entry is a dispute whose status is open. -/
def isOpen : (k : DataKey) → k.Val → Bool
  | .dispute _ _ _, d => d.status = .open
  | _, _ => false

/-- The deposit that an entry holds. -/
def depositOf (k : DataKey) (v : k.Val) : Int :=
  if isOpen k v then DISPUTE_DEPOSIT_STROOPS.val else 0

/-- The bond that an entry holds. -/
def bondOf : (k : DataKey) → k.Val → Int
  | .bond _, b => b.available.val + b.burned.val
  | _, _ => 0

theorem depositOf_of_ne {k : DataKey} (h : ∀ a t i, k ≠ .dispute a t i) (v : k.Val) :
    depositOf k v = 0 := by
  cases k with
  | dispute a t i => exact absurd rfl (h a t i)
  | _ => rfl

theorem bondOf_of_ne {k : DataKey} (h : ∀ a, k ≠ .bond a) (v : k.Val) : bondOf k v = 0 := by
  cases k with
  | bond a => exact absurd rfl (h a)
  | _ => rfl

namespace State
variable (s : State)

/-- The keys of the stored disputes whose status is open. -/
def openDisputes : Finset DataKey :=
  (s.persistent.keys).filter fun k => (s.get k).elim false (isOpen k) = true

/-- The sum of all bonds, burned or not. -/
def bondTotal : Int := s.total bondOf

/-- What the registry owes: the deposits of the open disputes, and all bonds. -/
def owed : Int := s.total depositOf + s.bondTotal

theorem mem_openDisputes {k : DataKey} :
    k ∈ s.openDisputes ↔ ∃ asset targetId identifier d, k = .dispute asset targetId identifier ∧
      s.get (.dispute asset targetId identifier) = some d ∧ d.status = .open := by
  rw [openDisputes, Finset.mem_filter, ← Store.isSome_get]
  change (s.get k).isSome = true ∧ _ ↔ _
  constructor
  · rintro ⟨hsome, hopen⟩
    obtain ⟨v, hv⟩ := Option.isSome_iff_exists.mp hsome
    rw [hv] at hopen
    cases k <;> simp [isOpen] at hopen
    exact ⟨_, _, _, v, rfl, hv, hopen⟩
  · rintro ⟨asset, targetId, identifier, d, rfl, hd, hopen⟩
    simp [hd, isOpen, hopen]

/-- The deposits are one fixed amount for each open dispute. -/
theorem total_depositOf :
    s.total depositOf = DISPUTE_DEPOSIT_STROOPS.val * (s.openDisputes.card : Int) := by
  have hworth : ∀ k, s.worth k depositOf =
      if (s.get k).elim false (isOpen k) = true then DISPUTE_DEPOSIT_STROOPS.val else 0 := by
    intro k
    rw [worth_eq]
    cases s.get k <;> rfl
  change ∑ k ∈ s.persistent.keys, s.worth k depositOf = _
  rw [Finset.sum_congr rfl fun k _ => hworth k, Finset.sum_ite, Finset.sum_const_zero,
    add_zero, Finset.sum_const, nsmul_eq_mul, mul_comm]
  rfl

theorem owed_eq :
    s.owed = DISPUTE_DEPOSIT_STROOPS.val * (s.openDisputes.card : Int) + s.bondTotal := by
  rw [owed, total_depositOf]

theorem worth_bondOf (asset : Address) :
    s.worth (.bond asset) bondOf = (s.bond asset).available.val + (s.bond asset).burned.val := by
  rw [worth_eq, bond]
  cases s.get (.bond asset) <;> rfl

/-! How the two sums react to a write of a bond and of a dispute. -/

variable (asset : Address) (targetId : U64) (identifier : U256)

theorem bonds_save_bond (b : Bond) : (s.save (.bond asset) b).total bondOf =
    s.total bondOf + (b.available.val + b.burned.val) -
      ((s.bond asset).available.val + (s.bond asset).burned.val) := by
  have h := s.total_save (.bond asset) b bondOf
  rw [worth_bondOf] at h
  simp only [bondOf] at h ⊢
  omega

theorem deposits_save_bond (b : Bond) :
    (s.save (.bond asset) b).total depositOf = s.total depositOf :=
  s.total_save_of_zero (k := .bond asset) (f := depositOf) b fun _ => rfl

theorem bonds_save_dispute (d : Dispute) :
    (s.save (.dispute asset targetId identifier) d).total bondOf = s.total bondOf :=
  s.total_save_of_zero (k := .dispute asset targetId identifier) (f := bondOf) d fun _ => rfl

theorem deposits_save_dispute (d : Dispute) :
    (s.save (.dispute asset targetId identifier) d).total depositOf =
      s.total depositOf + (if d.status = .open then 100000000 else 0) -
        (s.get (.dispute asset targetId identifier)).elim 0
          (fun old : Dispute => if old.status = .open then 100000000 else 0) := by
  have hof : depositOf (.dispute asset targetId identifier) =
      fun d : Dispute => if d.status = .open then 100000000 else 0 := by
    funext d
    simp [depositOf, isOpen]
  have h := s.total_save (.dispute asset targetId identifier) d depositOf
  rw [worth_eq, hof] at h
  exact eq_sub_of_add_eq h

end State

/-! ## Every call keeps the escrow -/

section Steps
variable {H : Host} {invocation : Invocation H} {op : Op} {s s' : State}

/-- A call changes the balance of the registry by what it changes of the debt. -/
theorem Effect.owed_balance (h : Effect invocation s op s') (hapart : DisputersApart H s) :
    s'.native H.currentContract - s'.owed = s.native H.currentContract - s.owed := by
  simp only [State.owed, State.bondTotal]
  have heffect := h
  cases h with
  | fundBond registered positive added bounded auth =>
    have hself := Contract.ne_self_of_authorized auth
    have hsum := I128.checkedAdd_eq_some.mp added
    rw [State.move_native, State.save_native, moveFunds_recipient hself, State.total_move,
      State.total_move, State.bonds_save_bond, State.deposits_save_bond]
    dsimp only
    omega
  | openDispute registered recorded notBefore recent proven fresh deadlineExact auth =>
    have hself := Contract.ne_self_of_authorized auth
    rw [State.move_native, State.save_native, moveFunds_recipient hself, State.total_move,
      State.total_move, State.bonds_save_dispute, State.deposits_save_dispute, fresh]
    simp [Dispute.new]
    omega
  | answerDispute registered stored stillOpen inWindow recorded included auth =>
    have hself := Contract.ne_self_of_authorized auth
    rw [State.move_native, State.save_native, moveFunds_sender hself.symm, State.total_move,
      State.total_move, State.bonds_save_dispute, State.deposits_save_dispute, stored]
    simp [Dispute.answer, stillOpen]
    omega
  | resolveDispute stored stillOpen afterWindow burns =>
    -- the payout goes to the disputer, who is not the registry
    have hself := hapart _ _ _ _ stored
    have hsum := I128.checkedAdd_eq_some.mp burns
    rw [State.move_native, State.save_native, State.save_native, moveFunds_sender hself.symm,
      State.total_move, State.total_move, State.bonds_save_dispute, State.bonds_save_bond,
      State.deposits_save_dispute, State.deposits_save_bond,
      State.get_save_of_ne _ _ _ _ (by simp), stored]
    simp [Dispute.omit, stillOpen]
    omega
  | registerAsset | setReserves | submitAttestation | observeReserves | registerDkimKey =>
    have hdeposits := heffect.total_of_bookkeeping trivial fun k _ hk => depositOf_of_ne hk
    have hbonds := heffect.total_of_bookkeeping trivial fun k hk _ => bondOf_of_ne hk
    rw [heffect.native_of_bookkeeping trivial, hdeposits, hbonds]

/-- The balance of the registry covers what it owes. -/
structure Solvent (H : Host) (s : State) : Prop where
  apart : DisputersApart H s
  covered : s.owed ≤ s.native H.currentContract

theorem Solvent.of_deployed (h : Deployed H s) : Solvent H s where
  apart _ _ _ d hd := by simp [h.get] at hd
  covered := by
    obtain ⟨hempty, hnative, -⟩ := h.spec
    simp [State.owed, State.bondTotal, State.total, hempty, hnative]

theorem Solvent.of_quiet (hq : Quiet H s s') (hi : Solvent H s) : Solvent H s' where
  apart _ _ _ d hd := hi.apart _ _ _ d (hq.get _ ▸ hd)
  covered := by
    have hsame : s'.owed = s.owed := by
      simp only [State.owed, State.bondTotal, State.total, hq.persistent]
    rw [hsame]
    exact hi.covered.trans hq.native

theorem Solvent.step (h : Effect invocation s op s') (hi : Solvent H s) : Solvent H s' where
  apart := hi.apart.step h
  covered := by
    have hbalance := h.owed_balance hi.apart
    have hcovered := hi.covered
    omega

end Steps

namespace RegistryRun
variable {H : Host} (run : RegistryRun H)

theorem solvent (t : Nat) : Solvent H (run.state t) :=
  run.invariant (fun _ => .of_deployed) (fun _ _ => .of_quiet) (fun h => .step h) t

/-- **Escrow solvency.**  In every reachable state the balance of the registry covers
the deposit of every open dispute and every bond, burned or not. -/
theorem escrow_solvency (t : Nat) :
    100000000 * ((run.state t).openDisputes.card : Int) + (run.state t).bondTotal ≤
      (run.state t).native H.currentContract := by
  have hcovered := (run.solvent t).covered
  rwa [State.owed_eq, deposit_val] at hcovered

end RegistryRun

/-! ## Bonds -/

/-- What a proven dispute of the asset burned. -/
def burnedBy (asset : Address) : (k : DataKey) → k.Val → Int
  | .dispute a _ _, d => if a = asset ∧ d.status = .omissionProven then d.burnedBond.val else 0
  | _, _ => 0

theorem burnedBy_of_ne {asset : Address} {k : DataKey} (h : ∀ a t i, k ≠ .dispute a t i)
    (v : k.Val) : burnedBy asset k v = 0 := by
  cases k with
  | dispute a t i => exact absurd rfl (h a t i)
  | _ => rfl

/-- What an event adds to the bond of the asset: the amount of a successful funding. -/
def Event.funds {H : Host} (asset : Address) : Event H → State → Int
  | .call invocation (.fundBond a amount), s =>
    match fundBond a amount invocation s with
    | .ok _ => if a = asset then amount.val else 0
    | .error _ => 0
  | _, _ => 0

/-- **The bond of one asset, and what its disputes burned.** -/
structure BondInvariant (asset : Address) (s : State) : Prop where
  available : 0 ≤ (s.bond asset).available.val
  burned : 0 ≤ (s.bond asset).burned.val
  bounded : (s.bond asset).available.val + (s.bond asset).burned.val ≤ I128.MAX
  burned_eq : (s.bond asset).burned.val = s.total (burnedBy asset)
  unburned : ∀ targetId identifier d, s.get (.dispute asset targetId identifier) = some d →
    d.status ≠ .omissionProven → d.burnedBond.val = 0

section BondSteps
variable {H : Host} {invocation : Invocation H} {op : Op} {s s' : State} {asset : Address}

theorem Effect.fund_spec {amount : I128} (h : Effect invocation s (.fundBond asset amount) s') :
    0 < amount.val ∧
      (s'.bond asset).available.val = (s.bond asset).available.val + amount.val ∧
      (s'.bond asset).burned = (s.bond asset).burned ∧
      (s'.bond asset).available.val + (s'.bond asset).burned.val ≤ I128.MAX := by
  cases h with
  | @fundBond _ _ entry available sum registered positive added bounded =>
    have hbond : ((s.save (.bond asset) { s.bond asset with available }).move entry.authority
        H.currentContract amount).bond asset = { s.bond asset with available } := by
      simp [State.bond]
    rw [hbond]
    refine ⟨positive, I128.checkedAdd_eq_some.mp added, rfl, ?_⟩
    rw [← I128.checkedAdd_eq_some.mp bounded]
    exact sum.le_max

theorem Effect.resolve_spec {targetId : U64} {id : U256}
    (h : Effect invocation s (.resolveDispute asset targetId id) s') :
    (s'.bond asset).available = 0 ∧
      (s'.bond asset).burned.val = (s.bond asset).burned.val + (s.bond asset).available.val := by
  cases h with
  | @resolveDispute _ _ _ d burned stored stillOpen afterWindow burns =>
    have hbond : (((s.save (.bond asset) { available := 0, burned }).save
        (.dispute asset targetId id) (d.omit s.ledger.sequence (s.bond asset).available)).move
        H.currentContract d.disputer DISPUTE_DEPOSIT_STROOPS).bond asset =
          { available := 0, burned } := by
      simp [State.bond, State.get_save_of_ne]
    rw [hbond]
    exact ⟨rfl, I128.checkedAdd_eq_some.mp burns⟩

/-- Only a funding and a resolution write the bond of their asset. -/
theorem Effect.bond_frame (h : Effect invocation s op s')
    (hfund : ∀ amount, op ≠ .fundBond asset amount)
    (hresolve : ∀ targetId id, op ≠ .resolveDispute asset targetId id) :
    s'.bond asset = s.bond asset := by
  have hget : s'.get (.bond asset) = s.get (.bond asset) := h.get_of_not_writes (by
    cases op <;> grind [Op.writes])
  rw [State.bond, State.bond, hget]

/-- The burned bonds of the proven disputes, after a write of a dispute. -/
theorem State.burned_save_dispute (s : State) (asset a : Address) (targetId : U64)
    (identifier : U256) (d : Dispute) :
    (s.save (.dispute a targetId identifier) d).total (burnedBy asset) +
        (s.get (.dispute a targetId identifier)).elim 0
          (burnedBy asset (.dispute a targetId identifier)) =
      s.total (burnedBy asset) + burnedBy asset (.dispute a targetId identifier) d :=
  s.total_save (.dispute a targetId identifier) d (burnedBy asset)

theorem State.burned_save_bond (s : State) (asset a : Address) (b : Bond) :
    (s.save (.bond a) b).total (burnedBy asset) = s.total (burnedBy asset) :=
  s.total_save_of_zero (k := .bond a) (f := burnedBy asset) b fun _ => rfl

variable (asset) in
/-- What a resolution adds to the burned bonds of the asset. -/
theorem Effect.resolve_burns {a : Address} {targetId : U64} {id : U256}
    (h : Effect invocation s (.resolveDispute a targetId id) s') :
    s'.total (burnedBy asset) = s.total (burnedBy asset) +
      if a = asset then (s.bond asset).available.val else 0 := by
  cases h with
  | @resolveDispute _ _ _ d burned stored stillOpen =>
    have hsum := (s.save (.bond a) { available := 0, burned }).burned_save_dispute asset a targetId
      id (d.omit s.ledger.sequence (s.bond a).available)
    rw [State.burned_save_bond, State.get_save_of_ne _ _ _ _ (by simp), stored] at hsum
    simp [burnedBy, Dispute.omit, stillOpen] at hsum
    rw [State.total_move]
    simp only [Dispute.omit]
    rw [hsum]
    split <;> simp [*]

/-- No other call changes the burned bonds. -/
theorem Effect.burned_frame (h : Effect invocation s op s')
    (hresolve : ∀ a targetId id, op ≠ .resolveDispute a targetId id) :
    s'.total (burnedBy asset) = s.total (burnedBy asset) := by
  have heffect := h
  cases h with
  | @openDispute a disputer target evidence entry targetRecord deadline _ _ _ _ _ fresh =>
    have hsum := s.burned_save_dispute asset a (s.targetOf a target) evidence.identifier
      (.new disputer evidence.origin (s.targetOf a target) evidence.identifier s.ledger.sequence
        deadline)
    rw [fresh] at hsum
    simpa [burnedBy, Dispute.new] using hsum
  | @answerDispute a targetId evidence entry d target _ stored stillOpen =>
    have hsum := s.burned_save_dispute asset a targetId evidence.id (d.answer s.ledger.sequence)
    rw [stored] at hsum
    simpa [burnedBy, Dispute.answer, stillOpen] using hsum
  | resolveDispute => exact absurd rfl (hresolve _ _ _)
  | fundBond => rw [State.total_move, State.burned_save_bond]
  | registerAsset | setReserves | submitAttestation | observeReserves | registerDkimKey =>
    exact heffect.total_of_bookkeeping trivial fun k _ hk => burnedBy_of_ne hk

variable (asset) in
/-- A resolution of another asset, or any other call, burns nothing of this one. -/
theorem Effect.burned_elsewhere (h : Effect invocation s op s')
    (hresolve : ∀ targetId id, op ≠ .resolveDispute asset targetId id) :
    s'.total (burnedBy asset) = s.total (burnedBy asset) := by
  by_cases hop : ∃ a targetId id, op = .resolveDispute a targetId id
  · obtain ⟨a, targetId, id, rfl⟩ := hop
    have hne : a ≠ asset := by
      rintro rfl
      exact hresolve _ _ rfl
    rw [h.resolve_burns asset, if_neg hne, add_zero]
  · exact h.burned_frame fun a targetId id heq => hop ⟨a, targetId, id, heq⟩

/-- A record that is not proven burned nothing. -/
theorem DisputeWrite.unburned {targetId : U64} {identifier : U256} {before : Option Dispute}
    {d : Dispute} {native : Address → Int}
    (h : DisputeWrite invocation s asset targetId identifier op before d native)
    (hbefore : ∀ old, before = some old → old.status ≠ .omissionProven → old.burnedBond.val = 0)
    (hd : d.status ≠ .omissionProven) : d.burnedBond.val = 0 := by
  cases h with
  | create => rfl
  | @answer evidence entry old _ _ stillOpen =>
    exact hbefore old rfl (by simp [stillOpen])
  | resolve => exact absurd rfl hd

theorem BondInvariant.of_deployed (h : Deployed H s) : BondInvariant asset s := by
  have hbond : s.bond asset = Bond.none := by rw [State.bond, h.get]; rfl
  constructor
  · rw [hbond]; decide
  · rw [hbond]; decide
  · rw [hbond]; decide
  · rw [hbond, State.total, h.spec.1, Store.total_empty]; rfl
  · intro targetId identifier d hd
    rw [h.get] at hd
    cases hd

theorem BondInvariant.of_quiet (hq : Quiet H s s') (hi : BondInvariant asset s) :
    BondInvariant asset s' := by
  have hbond : s'.bond asset = s.bond asset := by rw [State.bond, State.bond, hq.get]
  have htotal : s'.total (burnedBy asset) = s.total (burnedBy asset) := by
    rw [State.total, State.total, hq.persistent]
  constructor
  · rw [hbond]; exact hi.available
  · rw [hbond]; exact hi.burned
  · rw [hbond]; exact hi.bounded
  · rw [hbond, htotal]; exact hi.burned_eq
  · intro targetId identifier d hd
    exact hi.unburned targetId identifier d (hq.get _ ▸ hd)

/-- **Every call keeps the bond invariant.** -/
theorem BondInvariant.step (h : Effect invocation s op s') (hi : BondInvariant asset s) :
    BondInvariant asset s' := by
  have hunburned : ∀ targetId identifier d, s'.get (.dispute asset targetId identifier) = some d →
      d.status ≠ .omissionProven → d.burnedBond.val = 0 := by
    intro targetId identifier d hd
    rcases h.dispute_cases asset targetId identifier with heq | ⟨e, he, hwrite⟩
    · exact hi.unburned targetId identifier d (heq ▸ hd)
    · obtain rfl : e = d := Option.some.inj (he.symm.trans hd)
      exact hwrite.unburned fun old hold => hi.unburned targetId identifier old hold
  have hava := hi.available
  have hbur := hi.burned
  have hmax := hi.bounded
  have heq := hi.burned_eq
  by_cases hfund : ∃ amount, op = .fundBond asset amount
  · obtain ⟨amount, rfl⟩ := hfund
    obtain ⟨hpositive, havailable, hburned, hbounded⟩ := h.fund_spec
    have htotal := h.burned_elsewhere asset fun _ _ => by simp
    exact ⟨by omega, by rw [hburned]; exact hbur, hbounded, by rw [hburned, htotal]; exact heq,
      hunburned⟩
  by_cases hresolve : ∃ targetId id, op = .resolveDispute asset targetId id
  · obtain ⟨targetId, id, rfl⟩ := hresolve
    obtain ⟨havailable, hburned⟩ := h.resolve_spec
    have htotal := h.resolve_burns asset
    rw [if_pos rfl] at htotal
    have hzero : (s'.bond asset).available.val = 0 := by rw [havailable]; rfl
    exact ⟨by omega, by omega, by omega, by omega, hunburned⟩
  · push Not at hfund hresolve
    have hbond := h.bond_frame hfund hresolve
    have htotal := h.burned_elsewhere asset hresolve
    exact ⟨by rw [hbond]; exact hava, by rw [hbond]; exact hbur, by rw [hbond]; exact hmax,
      by rw [hbond, htotal]; exact heq, hunburned⟩

/-- The whole bond of an asset, burned or not. -/
def State.bonded (s : State) (asset : Address) : Int :=
  (s.bond asset).available.val + (s.bond asset).burned.val

variable (asset) in
/-- A call changes the whole bond by what it funds. -/
theorem Effect.bonded (h : Effect invocation s op s') :
    (∃ amount, op = .fundBond asset amount ∧
        s'.bonded asset = s.bonded asset + amount.val) ∨
      ((∀ amount, op ≠ .fundBond asset amount) ∧ s'.bonded asset = s.bonded asset) := by
  unfold State.bonded
  by_cases hfund : ∃ amount, op = .fundBond asset amount
  · obtain ⟨amount, rfl⟩ := hfund
    obtain ⟨-, havailable, hburned, -⟩ := h.fund_spec
    exact .inl ⟨amount, rfl, by rw [hburned]; omega⟩
  push Not at hfund
  refine .inr ⟨hfund, ?_⟩
  by_cases hresolve : ∃ targetId id, op = .resolveDispute asset targetId id
  · obtain ⟨targetId, id, rfl⟩ := hresolve
    obtain ⟨havailable, hburned⟩ := h.resolve_spec
    rw [havailable, I128.zero_val]
    omega
  · push Not at hresolve
    rw [h.bond_frame hfund hresolve]

/-- A successful funding counts its amount. -/
theorem Event.funds_of_ok {amount : I128}
    (h : (Op.fundBond asset amount).run invocation s = .ok ((), s')) :
    (Event.call invocation (.fundBond asset amount)).funds asset s = amount.val := by
  have hrun : fundBond asset amount invocation s = .ok ((), s') := h
  simp [Event.funds, hrun]

/-- No other call counts. -/
theorem Event.funds_of_ne (hop : ∀ amount, op ≠ .fundBond asset amount) :
    (Event.call invocation op).funds asset s = 0 := by
  cases op with
  | fundBond a amount =>
    have hne : a ≠ asset := by
      rintro rfl
      exact hop _ rfl
    simp only [Event.funds, if_neg hne]
    split <;> rfl
  | _ => rfl

/-- A funding that fails does not count. -/
theorem Event.funds_of_error {fault : Fault} (h : op.run invocation s = .error fault) :
    (Event.call invocation op).funds asset s = 0 := by
  cases op with
  | fundBond a amount =>
    have hrun : fundBond a amount invocation s = .error fault := h
    simp [Event.funds, hrun]
  | _ => rfl

/-- Every event changes the whole bond by what it funds. -/
theorem Event.bonded_apply (e : Event H) (s : State) (asset : Address) :
    (e.apply s).bonded asset = s.bonded asset + e.funds asset s := by
  cases e with
  | world ledger native =>
    have hbond : (Event.world (H := H) ledger native |>.apply s).bonded asset = s.bonded asset := by
      rw [Event.apply]
      split <;> rfl
    simpa [Event.funds] using hbond
  | call invocation op =>
    cases hrun : op.run invocation s with
    | error fault =>
      rw [Event.apply, Tx.commit_of_error hrun, Event.funds_of_error hrun, add_zero]
    | ok p =>
      rw [Event.apply, Tx.commit_of_ok hrun]
      rcases (run_eq_ok.mp hrun).bonded asset with ⟨amount, rfl, hsum⟩ | ⟨hop, hsum⟩
      · rw [hsum, Event.funds_of_ok hrun]
      · rw [hsum, Event.funds_of_ne hop, add_zero]

end BondSteps

namespace RegistryRun
variable {H : Host} (run : RegistryRun H) (asset : Address)

theorem bondInvariant (t : Nat) : BondInvariant asset (run.state t) :=
  run.invariant (fun _ => .of_deployed) (fun _ _ => .of_quiet) (fun h => .step h) t

/-- The whole bond is the exact sum of the successful fundings. -/
theorem bonded_eq_sum (t : Nat) : (run.state t).bonded asset =
    ∑ u ∈ Finset.range t, (run.event u).funds asset (run.state u) := by
  have hsum := Run.measure_eq_sum run (fun s => s.bonded asset) (fun e s => e.funds asset s)
    (fun u => (run.event u).bonded_apply (run.state u) asset) t
  have hstart : (run.state 0).bonded asset = 0 := by
    rw [State.bonded, State.bond, show run.state 0 = run.first from rfl, run.first_start.get]
    rfl
  rwa [hstart, zero_add] at hsum

/-- The burned bond never falls. -/
theorem burned_mono {t u : Nat} (htu : t ≤ u) :
    ((run.state t).bond asset).burned.val ≤ ((run.state u).bond asset).burned.val := by
  refine Run.monotone_of_step run (fun s => (s.bond asset).burned.val) (fun v => ?_) htu
  rcases run.step v with ⟨invocation, op, hcall⟩ | hquiet
  · have hinv := run.bondInvariant asset v
    by_cases hresolve : ∃ targetId id, op = .resolveDispute asset targetId id
    · obtain ⟨targetId, id, rfl⟩ := hresolve
      have := hcall.effect.resolve_spec.2
      have := hinv.available
      omega
    by_cases hfund : ∃ amount, op = .fundBond asset amount
    · obtain ⟨amount, rfl⟩ := hfund
      rw [hcall.effect.fund_spec.2.2.1]
    · push Not at hfund hresolve
      rw [hcall.effect.bond_frame hfund hresolve]
  · rw [State.bond, State.bond, hquiet.get]

/-- **The accounts of the bond of one asset over a run.** -/
structure BondAccounting (asset : Address) : Prop where
  available_nonneg : ∀ t, 0 ≤ ((run.state t).bond asset).available.val
  burned_nonneg : ∀ t, 0 ≤ ((run.state t).bond asset).burned.val
  bounded : ∀ t, ((run.state t).bond asset).available.val +
    ((run.state t).bond asset).burned.val ≤ I128.MAX
  /-- Both parts together are the sum of the successful fundings. -/
  funded : ∀ t, ((run.state t).bond asset).available.val +
      ((run.state t).bond asset).burned.val =
    ∑ u ∈ Finset.range t, (run.event u).funds asset (run.state u)
  burned_mono : ∀ t u, t ≤ u →
    ((run.state t).bond asset).burned.val ≤ ((run.state u).bond asset).burned.val
  /-- The burned part is the sum over the proven disputes. -/
  burned_eq : ∀ t, ((run.state t).bond asset).burned.val =
    (run.state t).total (burnedBy asset)
  unburned : ∀ t targetId identifier d,
    (run.state t).get (.dispute asset targetId identifier) = some d →
    d.status ≠ .omissionProven → d.burnedBond.val = 0
  /-- No stroop is burned twice: the proven disputes burned no more than was funded. -/
  burnedOnce : ∀ t, (run.state t).total (burnedBy asset) ≤
    ∑ u ∈ Finset.range t, (run.event u).funds asset (run.state u)
  elsewhere : ∀ t invocation op, run.event t = .call invocation op → op.asset ≠ asset →
    (run.state (t + 1)).get (.bond asset) = (run.state t).get (.bond asset)

/-- **Bond accounting**, from the deployment on, for every asset. -/
theorem bond_accounting (run : RegistryRun H) (asset : Address) : run.BondAccounting asset where
  available_nonneg t := (run.bondInvariant asset t).available
  burned_nonneg t := (run.bondInvariant asset t).burned
  bounded t := (run.bondInvariant asset t).bounded
  funded t := run.bonded_eq_sum asset t
  burned_mono _ _ htu := run.burned_mono asset htu
  burned_eq t := (run.bondInvariant asset t).burned_eq
  unburned t := (run.bondInvariant asset t).unburned
  burnedOnce t := by
    have hinv := run.bondInvariant asset t
    have hsum := run.bonded_eq_sum asset t
    rw [← hinv.burned_eq, ← hsum, State.bonded]
    have := hinv.available
    omega
  elsewhere t invocation op hevent hne := by
    rcases run.step t with ⟨invocation', op', hcall⟩ | hquiet
    · obtain ⟨rfl, rfl⟩ : invocation' = invocation ∧ op' = op := by
        simpa using hcall.1.symm.trans hevent
      refine hcall.effect.get_of_not_writes fun hwrites => hne ?_
      have howner := Op.owner_of_writes hwrites
      exact (Option.some.inj howner).symm
    · exact hquiet.get _

end RegistryRun
end ZkPoR
