import ZkPoR.Watchdog

/-! # What a watchdog run has established

`PointOk` says for every point of a run what the run has read and checked on its way
there, and `Sound` holds in every state of every run of the system, however the runs
overlap: a record that a run retries is of a transaction that cannot land any more.
-/
namespace ZkPoR
namespace Watchdog
open TransitionSystem

section Points
variable {oldId : Nat} {maxTimeOf : Hash → Nat}

/-- The run read the ledger, and its target is a new one. -/
structure Pass.Ok (oldId : Nat) (facts : List Fact) (p : Pass) : Prop where
  ledger : .ledger p.currentLedger ∈ facts
  new : oldId < p.target
  le_total : p.target ≤ p.total

/-- The transaction of the record that a run retries was found failed, or not found
after its expiry. -/
def Retry (maxTimeOf : Hash → Nat) (cleared : List Hash) (retry : Option StateRecord) : Prop :=
  ∀ w, retry = some w → ∃ h, w.Names maxTimeOf h ∧ h ∈ cleared

structure Attempt.Ok (oldId : Nat) (maxTimeOf : Hash → Nat) (cleared : Nat → List Hash)
    (facts : List Fact) (a : Attempt) : Prop where
  pass : a.pass.Ok oldId facts
  retry : Retry maxTimeOf (cleared a.pass.target) a.retry
  attested : .attested a.pass.target a.attested ∈ facts

/-- The delivery deadline has passed, and the target can still be disputed. -/
structure Attempt.Due (a : Attempt) : Prop where
  deadline : a.attested + a.pass.grace ≤ a.pass.currentLedger
  age : a.pass.currentLedger - a.attested ≤ disputeTargetMaxAgeLedgers

/-- What a run has established at each of its points. -/
def PointOk (oldId : Nat) (maxTimeOf : Hash → Nat) (cleared : Nat → List Hash)
    (facts : List Fact) : Point → Prop
  | .idle | .checking _ | .history _ | .ended _ => True
  | .ledger _ total => oldId < total
  | .reading p => p.Ok oldId facts
  | .pendingDispute p record | .pendingSettled p record | .pendingTransaction p record =>
    p.Ok oldId facts ∧ ∃ h, record.Names maxTimeOf h
  | .attestation p retry => p.Ok oldId facts ∧ Retry maxTimeOf (cleared p.target) retry
  | .package a | .delivering a | .expiring a => a.Ok oldId maxTimeOf cleared facts
  | .dispute a | .disputing a => a.Ok oldId maxTimeOf cleared facts ∧ a.Due
  | .account a | .preparing a | .recording a _ | .sending a _ | .polling a _ | .confirming a _
  | .closing a _ =>
    a.Ok oldId maxTimeOf cleared facts ∧ a.Due ∧ .noDispute a.pass.target ∈ facts

theorem Pass.Ok.mono {facts facts' : List Fact} (h : ∀ f ∈ facts, f ∈ facts') {p : Pass}
    (hp : p.Ok oldId facts) : p.Ok oldId facts' :=
  ⟨h _ hp.ledger, hp.new, hp.le_total⟩

theorem Retry.mono {cleared cleared' : List Hash} (h : ∀ x ∈ cleared, x ∈ cleared')
    {retry : Option StateRecord} (hr : Retry maxTimeOf cleared retry) :
    Retry maxTimeOf cleared' retry := by
  intro w hw
  obtain ⟨x, hnames, hx⟩ := hr w hw
  exact ⟨x, hnames, h x hx⟩

theorem Attempt.Ok.mono {cleared cleared' : Nat → List Hash} {facts facts' : List Fact}
    (hcleared : ∀ target, ∀ h ∈ cleared target, h ∈ cleared' target)
    (hfacts : ∀ f ∈ facts, f ∈ facts') {a : Attempt} (h : a.Ok oldId maxTimeOf cleared facts) :
    a.Ok oldId maxTimeOf cleared' facts' :=
  ⟨h.pass.mono hfacts, h.retry.mono (hcleared _), hfacts _ h.attested⟩

theorem PointOk.mono {cleared cleared' : Nat → List Hash} {facts facts' : List Fact}
    (hcleared : ∀ target, ∀ h ∈ cleared target, h ∈ cleared' target)
    (hfacts : ∀ f ∈ facts, f ∈ facts') {p : Point} (h : PointOk oldId maxTimeOf cleared facts p) :
    PointOk oldId maxTimeOf cleared' facts' p := by
  cases p with
  | idle | checking | history | ended => trivial
  | ledger grace total => exact h
  | reading p => exact Pass.Ok.mono hfacts h
  | pendingDispute p record | pendingSettled p record | pendingTransaction p record =>
    exact ⟨h.1.mono hfacts, h.2⟩
  | attestation p retry => exact ⟨h.1.mono hfacts, h.2.mono (hcleared _)⟩
  | package a | delivering a | expiring a => exact Attempt.Ok.mono hcleared hfacts h
  | dispute a | disputing a => exact ⟨h.1.mono hcleared hfacts, h.2⟩
  | account a | preparing a | recording a hash | sending a hash | polling a hash
  | confirming a hash | closing a hash =>
    exact ⟨h.1.mono hcleared hfacts, h.2.1, hfacts _ h.2.2⟩

/-- The loop goes on to a new target, or ends. -/
theorem Pass.Ok.next {cleared : Nat → List Hash} {facts : List Fact} {p : Pass}
    (h : p.Ok oldId facts) : PointOk oldId maxTimeOf cleared facts p.next := by
  unfold Pass.next
  split
  · rename_i hle
    exact ⟨h.ledger, Nat.lt_succ_of_lt h.new, hle⟩
  · trivial

theorem readState_pending {file : File} {grace : Nat} {w : StateRecord}
    (h : readState file grace = some (some w)) : file = .record w ∧ w.graceLedgers = grace := by
  cases file with
  | absent => simp [readState] at h
  | unreadable => simp [readState] at h
  | record v =>
    simp only [readState] at h
    split at h
    · cases h
    · split at h
      · cases h
      · rename_i hgrace _
        cases h
        exact ⟨rfl, by simpa using hgrace⟩

/-- What holds in every state of every run. -/
structure Sound (oldId : Nat) (maxTimeOf : Hash → Nat) (s : State) : Prop where
  names : ∀ target w, s.files target = .record w → w.status = .pending →
    ∃ h, w.Names maxTimeOf h
  dead : ∀ target, ∀ h ∈ s.cleared target, ¬ s.chain.Live maxTimeOf h
  points : ∀ r, PointOk oldId maxTimeOf s.cleared (s.facts r) (s.point r)

theorem Sound.of_initial {s : State} (h : Initial maxTimeOf s) : Sound oldId maxTimeOf s := by
  refine ⟨h.names, ?_, ?_⟩
  · intro target x hx
    rw [h.uncleared] at hx
    cases hx
  · intro r
    rw [h.idle r]
    trivial

/-- What one step of a run does beside the files: the ledger stays, a transaction is
cleared only when it cannot land any more, and the run has established what its next
point needs. -/
structure StepOk (oldId : Nat) (maxTimeOf : Hash → Nat) (r : RunId) (s s' : State) : Prop where
  chain : s'.chain = s.chain
  others : ∀ r', r' ≠ r → s'.point r' = s.point r' ∧ s'.facts r' = s.facts r'
  facts : ∀ f ∈ s.facts r, f ∈ s'.facts r
  cleared : ∀ target, ∀ h ∈ s.cleared target, h ∈ s'.cleared target
  dead : ∀ target, ∀ h ∈ s'.cleared target, h ∈ s.cleared target ∨ ¬ s.chain.Live maxTimeOf h
  point : PointOk oldId maxTimeOf s'.cleared (s'.facts r) (s'.point r)

/-- A step that only moves the run. -/
theorem StepOk.goto {s : State} {r : RunId} {p : Point}
    (h : PointOk oldId maxTimeOf s.cleared (s.facts r) p) :
    StepOk oldId maxTimeOf r s (s.goto r p) where
  chain := rfl
  others := fun r' hne => ⟨Function.update_of_ne hne _ _, rfl⟩
  facts := fun _ hf => hf
  cleared := fun _ _ hx => hx
  dead := fun _ _ hx => .inl hx
  point := by simpa [State.goto] using h

theorem StepOk.store {s : State} {r : RunId} {target : Nat} {view : Option StateRecord}
    {n : StateRecord} {fault : Fault} {next : Point}
    (h : PointOk oldId maxTimeOf s.cleared (s.facts r) next) :
    StepOk oldId maxTimeOf r s (s.store r target view n fault next) where
  chain := rfl
  others := fun r' hne => ⟨Function.update_of_ne hne _ _, rfl⟩
  facts := fun _ hf => hf
  cleared := fun _ _ hx => hx
  dead := fun _ _ hx => .inl hx
  point := by
    rcases store_point s r target view n fault next with hp | hp
    · rw [hp]
      exact h
    · rw [hp]
      trivial

/-- A step that reads the ledger. -/
theorem StepOk.note {s : State} {r : RunId} {f : Fact} {p : Point}
    (h : PointOk oldId maxTimeOf s.cleared (f :: s.facts r) p) :
    StepOk oldId maxTimeOf r s ((s.note r f).goto r p) where
  chain := rfl
  others := fun r' hne => ⟨Function.update_of_ne hne _ _, Function.update_of_ne hne _ _⟩
  facts := by
    intro g hg
    simp [State.goto, State.note, hg]
  cleared := fun _ _ hx => hx
  dead := fun _ _ hx => .inl hx
  point := by simpa [State.goto, State.note] using h

/-- A step that finds a recorded transaction settled, or expired. -/
theorem StepOk.clear {s : State} {r : RunId} {p : Pass} {record : StateRecord} {hash : Hash}
    (hp : p.Ok oldId (s.facts r)) (hnames : record.Names maxTimeOf hash)
    (hdead : ¬ s.chain.Live maxTimeOf hash) :
    StepOk oldId maxTimeOf r s { s with
      cleared := Function.update s.cleared p.target (hash :: s.cleared p.target)
      point := Function.update s.point r (.attestation p (some record)) } where
  chain := rfl
  others := fun r' hne => ⟨Function.update_of_ne hne _ _, rfl⟩
  facts := fun _ hf => hf
  cleared := by
    intro target x hx
    by_cases ht : target = p.target
    · subst ht
      simp [hx]
    · simpa [ht] using hx
  dead := by
    intro target x hx
    by_cases ht : target = p.target
    · subst ht
      rcases List.mem_cons.mp (by simpa using hx) with rfl | hx
      · exact .inr hdead
      · exact .inl hx
    · exact .inl (by simpa [ht] using hx)
  point := by
    simp only [Function.update_self]
    refine ⟨hp, ?_⟩
    intro w hw
    cases hw
    exact ⟨hash, hnames, by simp⟩

theorem getTransaction_not_live {c : Chain} {h : Hash} (hc : c.getTransaction h = .failed) :
    ¬ c.Live maxTimeOf h := by
  rintro ⟨hunseen, -⟩
  rw [Chain.getTransaction, hunseen] at hc
  split at hc <;> cases hc

theorem Sound.proceed {s : State} (hs : Sound oldId maxTimeOf s) (r : RunId) (i : Input) :
    StepOk oldId maxTimeOf r s (s.proceed oldId maxTimeOf r i) := by
  have hpoint := hs.points r
  have hsame : StepOk oldId maxTimeOf r s s :=
    ⟨rfl, fun _ _ => ⟨rfl, rfl⟩, fun _ hf => hf, fun _ _ hx => hx, fun _ _ hx => .inl hx, hpoint⟩
  unfold State.proceed
  cases hp : s.point r with
  | idle => exact hsame
  | ended outcome => exact hsame
  | checking grace => exact .goto trivial
  | history grace =>
    refine .goto ?_
    split
    · trivial
    · rename_i h
      exact Nat.lt_of_not_le h
  | ledger grace total =>
    rw [hp] at hpoint
    exact .note ⟨by simp, Nat.lt_succ_self _, hpoint⟩
  | reading p =>
    rw [hp] at hpoint
    dsimp only
    split
    · exact .goto trivial
    · exact .goto ⟨hpoint, fun w hw => nomatch hw⟩
    · rename_i record hread
      obtain ⟨hfile, -⟩ := readState_pending hread
      split
      · exact .goto (Pass.Ok.next ⟨hpoint.ledger, hpoint.new, hpoint.le_total⟩)
      · exact .goto (Pass.Ok.next hpoint)
      · exact .goto (Pass.Ok.next ⟨hpoint.ledger, hpoint.new, hpoint.le_total⟩)
      · rename_i hstatus
        exact .goto ⟨hpoint, hs.names p.target record hfile hstatus⟩
  | pendingDispute p record =>
    rw [hp] at hpoint
    refine .goto ?_
    split <;> exact hpoint
  | pendingSettled p record =>
    rw [hp] at hpoint
    exact .store trivial
  | pendingTransaction p record =>
    rw [hp] at hpoint
    obtain ⟨hpass, hash, hnames⟩ := hpoint
    obtain ⟨-, hhash, hmax⟩ := id hnames
    simp only [hhash, hmax]
    split
    · exact .goto trivial
    · rename_i hfailed
      exact .clear hpass hnames (getTransaction_not_live hfailed)
    · split
      · rename_i hexpired
        exact .clear hpass hnames fun hlive => absurd hlive.2 (Nat.not_le.mpr hexpired)
      · exact .goto trivial
  | attestation p retry =>
    rw [hp] at hpoint
    dsimp only
    split
    · exact .goto trivial
    · refine .note ⟨hpoint.1.mono fun f hf => by simp [hf], hpoint.2, by simp⟩
  | package a =>
    rw [hp] at hpoint
    dsimp only
    split
    · exact .goto hpoint
    · split
      · exact .goto trivial
      · rename_i hdeadline
        split
        · exact .goto hpoint
        · rename_i hage
          exact .goto ⟨hpoint, Nat.le_of_not_lt hdeadline, Nat.le_of_not_lt hage⟩
  | delivering a =>
    rw [hp] at hpoint
    exact .store (Pass.Ok.next ⟨hpoint.pass.ledger, hpoint.pass.new, hpoint.pass.le_total⟩)
  | expiring a =>
    rw [hp] at hpoint
    exact .store (Pass.Ok.next ⟨hpoint.pass.ledger, hpoint.pass.new, hpoint.pass.le_total⟩)
  | dispute a =>
    rw [hp] at hpoint
    dsimp only
    split
    · exact .goto hpoint
    · exact .note ⟨hpoint.1.mono (fun _ _ hx => hx) (fun f hf => by simp [hf]), hpoint.2, by simp⟩
  | disputing a => exact .store trivial
  | account a =>
    rw [hp] at hpoint
    exact .goto hpoint
  | preparing a =>
    rw [hp] at hpoint
    exact .goto hpoint
  | recording a hash =>
    rw [hp] at hpoint
    exact .store hpoint
  | sending a hash =>
    rw [hp] at hpoint
    have hnext : PointOk oldId maxTimeOf s.cleared (s.facts r)
        (if i.fault = .none then .polling a hash else .ended none) := by
      split
      · exact hpoint
      · trivial
    have h := StepOk.goto hnext
    exact ⟨h.chain, h.others, h.facts, h.cleared, h.dead, h.point⟩
  | polling a hash =>
    rw [hp] at hpoint
    refine .goto ?_
    split
    · exact hpoint
    · trivial
  | confirming a hash =>
    rw [hp] at hpoint
    refine .goto ?_
    split
    · exact hpoint
    · trivial
  | closing a hash => exact .store trivial

theorem Sound.advance {s : State} (hs : Sound oldId maxTimeOf s) (r : RunId) (i : Input) :
    StepOk oldId maxTimeOf r s (s.advance oldId maxTimeOf r i) := by
  unfold State.advance
  split
  · exact hs.proceed r i
  · split
    · rename_i hp
      exact ⟨rfl, fun _ _ => ⟨rfl, rfl⟩, fun _ hf => hf, fun _ _ hx => hx, fun _ _ hx => .inl hx,
        hs.points r⟩
    · exact ⟨rfl, fun _ _ => ⟨rfl, rfl⟩, fun _ hf => hf, fun _ _ hx => hx, fun _ _ hx => .inl hx,
        hs.points r⟩
    · exact .goto trivial

/-- A pending record that a run stores names its transaction. -/
theorem names_of_write {p : Point} {target : Nat} {view : Option StateRecord} {n : StateRecord}
    (h : p.write maxTimeOf = some (target, view, n)) (hn : n.status = .pending) :
    ∃ a hash, p = .recording a hash ∧ n.Names maxTimeOf hash := by
  cases p <;> simp only [Point.write, Option.some.injEq, Prod.mk.injEq, reduceCtorEq] at h
  case recording a hash =>
    obtain ⟨-, -, rfl⟩ := h
    exact ⟨a, hash, rfl, rfl, rfl, rfl⟩
  all_goals
    obtain ⟨-, -, rfl⟩ := h
    cases hn

/-- A run replaces only what it knows as a pending record. -/
theorem pending_of_write {cleared : Nat → List Hash} {facts : List Fact} {p : Point}
    {target : Nat} {view n : StateRecord} (hok : PointOk oldId maxTimeOf cleared facts p)
    (h : p.write maxTimeOf = some (target, some view, n)) : view.status = .pending := by
  have hretry : ∀ a : Attempt, a.Ok oldId maxTimeOf cleared facts → a.retry = some view →
      view.status = .pending := by
    intro a ha hview
    obtain ⟨hash, hnames, -⟩ := ha.retry view hview
    exact hnames.1
  cases p with
  | pendingSettled p record =>
    simp only [Point.write, Option.some.injEq, Prod.mk.injEq] at h
    obtain ⟨-, rfl, -⟩ := h
    obtain ⟨-, hash, hnames⟩ := hok
    exact hnames.1
  | delivering a | expiring a =>
    simp only [Point.write, Option.some.injEq, Prod.mk.injEq] at h
    exact hretry a hok h.2.1
  | disputing a | recording a hash =>
    simp only [Point.write, Option.some.injEq, Prod.mk.injEq] at h
    exact hretry a hok.1 h.2.1
  | closing a hash =>
    simp only [Point.write, Option.some.injEq, Prod.mk.injEq] at h
    obtain ⟨-, rfl, -⟩ := h
    rfl
  | _ => simp [Point.write] at h

/-- A run that replaces a pending record by a pending one has found the first
transaction settled or expired. -/
theorem cleared_of_write {cleared : Nat → List Hash} {facts : List Fact} {p : Point}
    {target : Nat} {view n : StateRecord} (hok : PointOk oldId maxTimeOf cleared facts p)
    (h : p.write maxTimeOf = some (target, some view, n)) (hn : n.status = .pending) :
    ∃ hash, view.Names maxTimeOf hash ∧ hash ∈ cleared target := by
  obtain ⟨a, hash, rfl, -⟩ := names_of_write h hn
  simp only [Point.write, Option.some.injEq, Prod.mk.injEq] at h
  obtain ⟨rfl, hview, -⟩ := h
  exact hok.1.retry view hview

/-- What a transaction cannot do any more it cannot do later. -/
theorem not_live_of_chain {c c' : Chain} (hclose : c.closeTime ≤ c'.closeTime)
    (htxs : ∀ h, c.txs h ≠ .unseen → c'.txs h ≠ .unseen) {h : Hash}
    (hdead : ¬ c.Live maxTimeOf h) : ¬ c'.Live maxTimeOf h := by
  rintro ⟨hunseen, hexpiry⟩
  refine hdead ⟨?_, hclose.trans hexpiry⟩
  by_contra hseen
  exact htxs h hseen hunseen

variable (oldId maxTimeOf) in
/-- An event is a step of a run, ends a run or begins one, or is the ledger's. -/
theorem apply_cases (e : Event) (s : State) :
    (∃ r i, e = .step r i ∧ e.apply oldId maxTimeOf s = s.advance oldId maxTimeOf r i) ∨
    (∃ r p, (p = .ended none ∨ ∃ grace value, p = .checking grace ∧ e = .begin r value) ∧
      e.apply oldId maxTimeOf s = s.goto r p) ∨
    ∃ c, e.apply oldId maxTimeOf s = { s with chain := c } ∧ s.chain.closeTime ≤ c.closeTime ∧
      ∀ h, s.chain.txs h ≠ .unseen → c.txs h ≠ .unseen := by
  have hsame : ∃ c, s = { s with chain := c } ∧ s.chain.closeTime ≤ c.closeTime ∧
      ∀ h, s.chain.txs h ≠ .unseen → c.txs h ≠ .unseen := ⟨s.chain, rfl, le_refl _, fun _ h => h⟩
  cases e with
  | step r i => exact .inl ⟨r, i, rfl, rfl⟩
  | begin r value =>
    right
    simp only [Event.apply]
    split
    · cases graceOf value with
      | none => exact .inl ⟨r, _, .inl rfl, rfl⟩
      | some grace => exact .inl ⟨r, _, .inr ⟨grace, value, rfl, rfl⟩, rfl⟩
    · exact .inr hsame
  | kill r =>
    right
    simp only [Event.apply]
    split
    · exact .inr hsame
    · exact .inr hsame
    · exact .inl ⟨r, _, .inl rfl, rfl⟩
  | close ledgers seconds => exact .inr (.inr ⟨_, rfl, Nat.le_add_right _ _, fun _ h => h⟩)
  | settle target hash success =>
    right; right
    simp only [Event.apply]
    split
    · refine ⟨_, rfl, le_refl _, ?_⟩
      intro h hseen
      by_cases hh : h = hash
      · subst hh
        cases success <;> simp [Chain.settle]
      · simpa [Chain.settle, hh] using hseen
    · exact hsame
  | attest ledger | «open» target | forget hash => exact .inr (.inr ⟨_, rfl, le_refl _, fun _ h => h⟩)

theorem Sound.apply {s : State} (hs : Sound oldId maxTimeOf s) (e : Event) :
    Sound oldId maxTimeOf (e.apply oldId maxTimeOf s) := by
  rcases apply_cases oldId maxTimeOf e s with ⟨r, i, -, h⟩ | ⟨r, p, hp, h⟩ | ⟨c, h, hclose, htxs⟩
  · rw [h]
    have hstep := hs.advance r i
    refine ⟨?_, ?_, ?_⟩
    · rcases advance_files oldId maxTimeOf s r i with
        ⟨hfiles, -⟩ | ⟨target, view, n, next, hwrite, hstore⟩
      · rw [hfiles]
        exact hs.names
      · rw [hstore, store_files]
        intro target' w hw hpending
        by_cases ht : target' = target
        · subst ht
          rw [Function.update_self] at hw
          rcases store_cases (s.files target') view n i.fault with ⟨hn, -⟩ | ⟨hsame, -⟩ | ⟨hbad, -⟩
          · rw [hn] at hw
            cases hw
            obtain ⟨a, hash, -, hnames⟩ := names_of_write hwrite hpending
            exact ⟨hash, hnames⟩
          · exact hs.names target' w (hsame ▸ hw) hpending
          · rw [hbad] at hw
            cases hw
        · rw [Function.update_of_ne ht] at hw
          exact hs.names target' w hw hpending
    · intro target x hx
      rw [hstep.chain]
      rcases hstep.dead target x hx with hx | hx
      · exact hs.dead target x hx
      · exact hx
    · intro r'
      by_cases hr : r' = r
      · subst hr
        exact hstep.point
      · obtain ⟨hpoint, hfacts⟩ := hstep.others r' hr
        rw [hpoint, hfacts]
        exact (hs.points r').mono hstep.cleared (fun _ hf => hf)
  · rw [h]
    refine ⟨hs.names, hs.dead, ?_⟩
    intro r'
    by_cases hr : r' = r
    · subst hr
      rcases hp with rfl | ⟨grace, value, rfl, -⟩ <;> simp [State.goto, PointOk]
    · simpa [State.goto, hr] using hs.points r'
  · rw [h]
    exact ⟨hs.names, fun target x hx => not_live_of_chain hclose htxs (hs.dead target x hx),
      hs.points⟩

theorem Run.sound (run : Run (watchdog oldId maxTimeOf)) (t : Nat) :
    Sound oldId maxTimeOf (run.state t) :=
  run.invariant (fun _ => Sound.of_initial) (fun e _ hs => hs.apply e) t

end Points

end Watchdog
end ZkPoR
