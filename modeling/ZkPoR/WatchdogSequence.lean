import ZkPoR.WatchdogOverlap

/-! # Watchdog runs one after the other

A run that is alone knows the files: the record it last read or wrote is still there
when it replaces it or sends for it.  A sequence of runs therefore meets the condition of
the overlapping ones, whatever the ledger does and wherever each run stops.  What a run
noted of the ledger, and what it cleared, was so at an earlier instant (`Run.fact_holds`,
`Run.cleared_settled`).
-/
namespace ZkPoR
namespace Watchdog
open TransitionSystem

section Sequence
variable {oldId : Nat} {maxTimeOf : Hash → Nat}

/-- The run has begun and has not ended. -/
def Point.Active : Point → Prop
  | .idle | .ended _ => False
  | _ => True

/-- No run begins while another one runs. -/
def Sequential (run : Run (watchdog oldId maxTimeOf)) : Prop :=
  ∀ t r value, run.event t = .begin r value → ∀ r', ¬ ((run.state t).point r').Active

/-- The file that a run found. -/
def viewFile : Option StateRecord → File
  | none => .absent
  | some w => .record w

/-- Every new target before this one is delivered, disputed or expired. -/
def Below (oldId : Nat) (files : Nat → File) (target : Nat) : Prop :=
  ∀ before, oldId < before → before < target →
    ∃ w, files before = .record w ∧ w.status ≠ .pending

/-- The files are as a run left them when it last read or wrote them. -/
def View (oldId : Nat) (maxTimeOf : Hash → Nat) (files : Nat → File) : Point → Prop
  | .idle | .checking _ | .history _ | .ledger _ _ | .ended _ => True
  | .reading p => Below oldId files p.target
  | .pendingDispute p record | .pendingSettled p record | .pendingTransaction p record =>
    Below oldId files p.target ∧ files p.target = .record record
  | .attestation p retry => Below oldId files p.target ∧ files p.target = viewFile retry
  | .package a | .delivering a | .expiring a | .dispute a | .disputing a | .account a
  | .preparing a | .recording a _ =>
    Below oldId files a.pass.target ∧ files a.pass.target = viewFile a.retry
  | .sending a hash | .polling a hash | .confirming a hash | .closing a hash =>
    Below oldId files a.pass.target ∧
      files a.pass.target = .record (pendingRecord maxTimeOf a.pass.grace hash)

/-- At most one run runs, and it knows the files. -/
structure Alone (oldId : Nat) (maxTimeOf : Hash → Nat) (s : State) : Prop where
  one : ∀ r r', (s.point r).Active → (s.point r').Active → r = r'
  view : ∀ r, View oldId maxTimeOf s.files (s.point r)

theorem Below.succ {files : Nat → File} {target : Nat} (h : Below oldId files target)
    {w : StateRecord} (hw : files target = .record w) (hterminal : w.status ≠ .pending) :
    Below oldId files (target + 1) := by
  intro before hnew hlt
  rcases Nat.lt_succ_iff_lt_or_eq.mp hlt with hlt | rfl
  · exact h before hnew hlt
  · exact ⟨w, hw, hterminal⟩

theorem Below.update {files : Nat → File} {target : Nat} (h : Below oldId files target)
    (file : File) : Below oldId (Function.update files target file) target := by
  intro before hnew hlt
  rw [Function.update_of_ne (Nat.ne_of_lt hlt)]
  exact h before hnew hlt

theorem view_next {files : Nat → File} {p q : Pass} (hq : q.target = p.target)
    (h : Below oldId files p.target) {w : StateRecord} (hw : files p.target = .record w)
    (hterminal : w.status ≠ .pending) : View oldId maxTimeOf files q.next := by
  unfold Pass.next
  split
  · rw [View, hq]
    exact h.succ hw hterminal
  · trivial

theorem readState_none {file : File} {grace : Nat} (h : readState file grace = some none) :
    file = .absent := by
  cases file with
  | absent => rfl
  | unreadable => simp [readState] at h
  | record w =>
    simp only [readState] at h
    split at h
    · cases h
    · split at h <;> cases h

/-- A run that goes on after storing knows the file it stored. -/
theorem view_store {s : State} {r : RunId} {target : Nat} {view : Option StateRecord}
    {n : StateRecord} {fault : Fault} {next : Point} (hbelow : Below oldId s.files target)
    (hnext : ∀ files, Below oldId files target → files target = .record n →
      View oldId maxTimeOf files next) :
    View oldId maxTimeOf (s.store r target view n fault next).files
      ((s.store r target view n fault next).point r) := by
  by_cases h : (s.files target).stores view fault = true ∧ fault = .none
  · have hpoint : (s.store r target view n fault next).point r = next := by
      simp only [State.store, Function.update_self]
      exact if_pos h
    rw [hpoint, store_files]
    refine hnext _ (hbelow.update _) ?_
    rw [Function.update_self]
    rcases store_cases (s.files target) view n fault with ⟨hn, -⟩ | ⟨-, hnot⟩ | ⟨-, hnot, -⟩
    · exact hn
    · rw [hnot] at h
      cases h.1
    · rw [hnot] at h
      cases h.1
  · have hpoint : (s.store r target view n fault next).point r = .ended none := by
      simp only [State.store, Function.update_self]
      exact if_neg h
    rw [hpoint]
    trivial

theorem view_goto {s : State} {r : RunId} {p : Point} (h : View oldId maxTimeOf s.files p) :
    View oldId maxTimeOf (s.goto r p).files ((s.goto r p).point r) := by
  simpa [State.goto] using h

theorem view_proceed {s : State} {r : RunId} (hview : View oldId maxTimeOf s.files (s.point r))
    (i : Input) : View oldId maxTimeOf (s.proceed oldId maxTimeOf r i).files
      ((s.proceed oldId maxTimeOf r i).point r) := by
  unfold State.proceed
  cases hp : s.point r with
  | idle =>
    dsimp only
    rw [hp]
    trivial
  | ended outcome =>
    dsimp only
    rw [hp]
    trivial
  | checking grace => exact view_goto trivial
  | history grace =>
    refine view_goto ?_
    split <;> trivial
  | ledger grace total =>
    refine view_goto (s := s.note r _) ?_
    intro before hnew hlt
    exact absurd hnew (Nat.not_lt.mpr (Nat.le_of_lt_succ hlt))
  | reading p =>
    rw [hp] at hview
    dsimp only
    split
    · exact view_goto trivial
    · rename_i hread
      exact view_goto ⟨hview, readState_none hread⟩
    · rename_i record hread
      obtain ⟨hfile, -⟩ := readState_pending hread
      split
      · rename_i hstatus
        exact view_goto (view_next rfl hview hfile (by simp [hstatus]))
      · rename_i hstatus
        exact view_goto (view_next rfl hview hfile (by simp [hstatus]))
      · rename_i hstatus
        exact view_goto (view_next rfl hview hfile (by simp [hstatus]))
      · exact view_goto ⟨hview, hfile⟩
  | pendingDispute p record =>
    rw [hp] at hview
    refine view_goto ?_
    split <;> exact hview
  | pendingSettled p record =>
    rw [hp] at hview
    exact view_store hview.1 fun _ _ _ => trivial
  | pendingTransaction p record =>
    rw [hp] at hview
    have hcleared : View oldId maxTimeOf s.files (.attestation p (some record)) := hview
    dsimp only
    split
    · split
      · exact view_goto trivial
      · simpa using hcleared
      · split
        · simpa using hcleared
        · exact view_goto trivial
    · exact view_goto trivial
  | attestation p retry =>
    rw [hp] at hview
    dsimp only
    split
    · exact view_goto trivial
    · exact view_goto (s := s.note r _) hview
  | package a =>
    rw [hp] at hview
    dsimp only
    split
    · exact view_goto hview
    · split
      · exact view_goto trivial
      · split <;> exact view_goto hview
  | delivering a =>
    rw [hp] at hview
    refine view_store hview.1 fun files hbelow hfile => ?_
    exact view_next rfl hbelow hfile (by simp [recordOf])
  | expiring a =>
    rw [hp] at hview
    refine view_store hview.1 fun files hbelow hfile => ?_
    exact view_next rfl hbelow hfile (by simp [recordOf])
  | dispute a =>
    rw [hp] at hview
    dsimp only
    split
    · exact view_goto hview
    · exact view_goto (s := s.note r _) hview
  | disputing a =>
    rw [hp] at hview
    exact view_store hview.1 fun _ _ _ => trivial
  | account a =>
    rw [hp] at hview
    exact view_goto hview
  | preparing a =>
    rw [hp] at hview
    exact view_goto hview
  | recording a hash =>
    rw [hp] at hview
    exact view_store hview.1 fun files hbelow hfile => ⟨hbelow, hfile⟩
  | sending a hash =>
    rw [hp] at hview
    simp only [Function.update_self]
    split
    · exact hview
    · trivial
  | polling a hash =>
    rw [hp] at hview
    refine view_goto ?_
    split
    · exact hview
    · trivial
  | confirming a hash =>
    rw [hp] at hview
    refine view_goto ?_
    split
    · exact hview
    · trivial
  | closing a hash =>
    rw [hp] at hview
    exact view_store hview.1 fun _ _ _ => trivial

theorem view_advance {s : State} {r : RunId} (hview : View oldId maxTimeOf s.files (s.point r))
    (i : Input) : View oldId maxTimeOf (s.advance oldId maxTimeOf r i).files
      ((s.advance oldId maxTimeOf r i).point r) := by
  unfold State.advance
  split
  · exact view_proceed hview i
  · split
    · exact hview
    · exact hview
    · exact view_goto trivial

/-- A run that has not begun, or that ended, does nothing. -/
theorem advance_inactive {s : State} {r : RunId} (h : ¬ (s.point r).Active) (i : Input) :
    s.advance oldId maxTimeOf r i = s := by
  cases hp : s.point r with
  | idle => simp [State.advance, State.proceed, hp]
  | ended outcome => simp [State.advance, State.proceed, hp]
  | _ =>
    rw [hp] at h
    exact absurd trivial h

theorem View.of_inactive {files : Nat → File} {p : Point} (h : ¬ p.Active) :
    View oldId maxTimeOf files p := by
  cases p with
  | idle => trivial
  | ended outcome => trivial
  | _ => exact absurd trivial h

theorem Alone.of_initial {s : State} (h : Initial maxTimeOf s) : Alone oldId maxTimeOf s := by
  have hidle : ∀ r, ¬ (s.point r).Active := by
    intro r
    rw [h.idle r]
    exact id
  exact ⟨fun r _ hr => absurd hr (hidle r), fun r => .of_inactive (hidle r)⟩

/-- Runs of which one is active. -/
theorem Alone.of_others {s : State} {r : RunId}
    (hothers : ∀ r', r' ≠ r → ¬ (s.point r').Active)
    (hview : View oldId maxTimeOf s.files (s.point r)) : Alone oldId maxTimeOf s := by
  have hactive : ∀ r', (s.point r').Active → r' = r := fun r' hr' => by
    by_contra hne
    exact hothers r' hne hr'
  refine ⟨fun r₁ r₂ h₁ h₂ => (hactive r₁ h₁).trans (hactive r₂ h₂).symm, fun r' => ?_⟩
  by_cases hr : r' = r
  · exact hr ▸ hview
  · exact .of_inactive (hothers r' hr)

theorem Alone.apply {s : State} (hs : Sound oldId maxTimeOf s) (ha : Alone oldId maxTimeOf s)
    {e : Event} (hseq : ∀ r value, e = .begin r value → ∀ r', ¬ (s.point r').Active) :
    Alone oldId maxTimeOf (e.apply oldId maxTimeOf s) := by
  rcases apply_cases oldId maxTimeOf e s with
    ⟨r, i, rfl, h⟩ | ⟨r, p, hp, h⟩ | ⟨c, h, -⟩
  · rw [h]
    by_cases hactive : (s.point r).Active
    · refine .of_others (fun r' hne hr' => ?_) (view_advance (ha.view r) i)
      rw [((hs.advance r i).others r' hne).1] at hr'
      exact hne (ha.one r' r hr' hactive)
    · rw [advance_inactive hactive]
      exact ha
  · rw [h]
    rcases hp with rfl | ⟨grace, value, rfl, rfl⟩
    · -- a run that is killed is not active, and the others stay what they are
      have hless : ∀ r', ((s.goto r (.ended none)).point r').Active → (s.point r').Active := by
        intro r' hr'
        by_cases hr : r' = r
        · subst hr
          simp [State.goto, Point.Active] at hr'
        · simpa [State.goto, hr] using hr'
      refine ⟨fun r₁ r₂ h₁ h₂ => ha.one r₁ r₂ (hless r₁ h₁) (hless r₂ h₂), ?_⟩
      intro r'
      by_cases hr : r' = r
      · subst hr
        exact .of_inactive (by simp [State.goto, Point.Active])
      · simpa [State.goto, hr] using ha.view r'
    · have hnone := hseq r value rfl
      refine .of_others (r := r) (fun r' hne => ?_) (view_goto trivial)
      simpa [State.goto, hne] using hnone r'
  · rw [h]
    exact ⟨ha.one, ha.view⟩

theorem Run.alone (run : Run (watchdog oldId maxTimeOf)) (hseq : Sequential run) (t : Nat) :
    Alone oldId maxTimeOf (run.state t) :=
  run.invariant_upto (P := Alone oldId maxTimeOf) (fun _ => Alone.of_initial) t
    fun u _ ha => ha.apply (Run.sound run u) (hseq u)

/-- Alone, a run finds the record it last read or wrote. -/
theorem Alone.current {s : State} (ha : Alone oldId maxTimeOf s) (e : Event) :
    Current maxTimeOf s e := by
  refine ⟨?_, ?_⟩
  · intro r i target view n _ hwrite _
    left
    have hview := ha.view r
    cases hp : s.point r with
    | pendingSettled p record =>
      rw [hp] at hwrite hview
      simp only [Point.write, Option.some.injEq, Prod.mk.injEq] at hwrite
      obtain ⟨rfl, rfl, -⟩ := hwrite
      exact hview.2
    | delivering a | expiring a | disputing a | recording a hash =>
      rw [hp] at hwrite hview
      simp only [Point.write, Option.some.injEq, Prod.mk.injEq] at hwrite
      obtain ⟨rfl, hretry, -⟩ := hwrite
      rw [hview.2, hretry]
      rfl
    | closing a hash =>
      rw [hp] at hwrite hview
      simp only [Point.write, Option.some.injEq, Prod.mk.injEq] at hwrite
      obtain ⟨rfl, rfl, -⟩ := hwrite
      exact hview.2
    | _ => simp [hp, Point.write] at hwrite
  · rintro r a hash ⟨hp, -⟩
    have hview := ha.view r
    rw [hp] at hview
    exact hview.2

/-- After its send a run does not come back to one. -/
def Point.AfterSend : Point → Prop
  | .polling _ _ | .confirming _ _ | .closing _ _ | .ended _ => True
  | _ => False

theorem afterSend_advance {s : State} {r r' : RunId} {i : Input} (hs : Sound oldId maxTimeOf s)
    (h : (s.point r').AfterSend) : ((s.advance oldId maxTimeOf r i).point r').AfterSend := by
  by_cases hr : r' = r
  · subst hr
    unfold State.advance
    split
    · unfold State.proceed
      cases hp : s.point r' with
      | polling a hash | confirming a hash =>
        simp only [State.goto, Function.update_self]
        split <;> trivial
      | closing a hash =>
        rcases store_point s r' a.pass.target
          (some (pendingRecord maxTimeOf a.pass.grace hash))
          { recordOf a.pass.grace .disputed with transactionHash := some hash } i.fault
          (.ended (some ⟨.opened a.pass.target hash, a.pass.firstExpired⟩)) with hq | hq
        · dsimp only
          rw [hq]
          trivial
        · dsimp only
          rw [hq]
          trivial
      | ended outcome =>
        dsimp only
        rw [hp]
        trivial
      | _ =>
        rw [hp] at h
        exact h.elim
    · split
      · exact h
      · exact h
      · simp [State.throw, State.goto, Point.AfterSend]
  · rw [((hs.advance r i).others r' hr).1]
    exact h

theorem afterSend_apply {s : State} {r : RunId} (hs : Sound oldId maxTimeOf s) (e : Event)
    (h : (s.point r).AfterSend) : ((e.apply oldId maxTimeOf s).point r).AfterSend := by
  cases e with
  | step r' i => exact afterSend_advance hs h
  | begin r' value =>
    simp only [Event.apply]
    split
    · rename_i hidle
      have hne : r ≠ r' := by
        rintro rfl
        rw [hidle] at h
        exact h
      cases graceOf value <;> simpa [State.goto, State.throw, hne] using h
    · exact h
  | kill r' =>
    simp only [Event.apply]
    split
    · exact h
    · exact h
    · by_cases hr : r = r'
      · subst hr
        simp [State.throw, State.goto, Point.AfterSend]
      · simpa [State.throw, State.goto, hr] using h
  | settle target hash success =>
    simp only [Event.apply]
    split <;> exact h
  | close ledgers seconds | attest ledger | «open» target | forget hash => exact h

theorem afterSend_of_sends {s : State} {e : Event} {r : RunId} {a : Attempt} {hash : Hash}
    (h : Sends s e r a hash) : ((e.apply oldId maxTimeOf s).point r).AfterSend := by
  obtain ⟨hp, i, rfl, hfault⟩ := h
  have hgo : i.fault = .none ∨ ((s.point r).Writes ∧ i.fault ≠ .before) := by
    right
    rw [hp]
    exact ⟨rfl, hfault⟩
  change ((s.advance oldId maxTimeOf r i).point r).AfterSend
  rw [State.advance, if_pos hgo, State.proceed, hp]
  simp only [Function.update_self]
  split <;> trivial

/-- A run sends at most one transaction. -/
theorem Run.sends_once (run : Run (watchdog oldId maxTimeOf)) {u v : Nat} {r : RunId}
    {a b : Attempt} {hash hash' : Hash} (hu : Sends (run.state u) (run.event u) r a hash)
    (hv : Sends (run.state v) (run.event v) r b hash') : u = v := by
  have hlater : ∀ {u v a b hash hash'}, Sends (run.state u) (run.event u) r a hash →
      Sends (run.state v) (run.event v) r b hash' → ¬ u < v := by
    intro u v a b hash hash' hu hv huv
    have hafter : ((run.state v).point r).AfterSend := by
      refine run.stable (P := fun s => (s.point r).AfterSend) ?_ (Nat.succ_le_of_lt huv)
        (afterSend_of_sends hu)
      exact fun w hw => afterSend_apply (Run.sound run w) (run.event w) hw
    rw [hv.1] at hafter
    exact hafter
  rcases Nat.lt_trichotomy u v with h | h | h
  · exact absurd h (hlater hu hv)
  · exact h
  · exact absurd h (hlater hv hu)

/-- What a fact says of the ledger. -/
def Fact.Holds (c : Chain) : Fact → Prop
  | .ledger n => c.ledger = n
  | .attested target n => c.attestedLedger target = some n
  | .noDispute target => c.disputed target = false

theorem fact_note {s : State} {r r' : RunId} {f g : Fact} {p : Point}
    (h : f ∈ ((s.note r' g).goto r' p).facts r) (hnew : f ∉ s.facts r) : r = r' ∧ f = g := by
  by_cases hr : r = r'
  · subst hr
    simp only [State.goto, State.note, Function.update_self, List.mem_cons] at h
    rcases h with h | h
    · exact ⟨rfl, h⟩
    · exact absurd h hnew
  · simp only [State.goto, State.note, Function.update_of_ne hr] at h
    exact absurd h hnew

/-- A run notes what it reads. -/
theorem fact_advance {s : State} {r r' : RunId} {i : Input} {f : Fact}
    (h : f ∈ (s.advance oldId maxTimeOf r' i).facts r) (hnew : f ∉ s.facts r) :
    r = r' ∧ f.Holds s.chain := by
  unfold State.advance at h
  split at h
  · unfold State.proceed at h
    cases hp : s.point r' <;> rw [hp] at h <;> dsimp only at h
    case ledger grace total =>
      obtain ⟨rfl, rfl⟩ := fact_note h hnew
      exact ⟨rfl, rfl⟩
    case attestation p retry =>
      split at h
      · exact absurd h hnew
      · rename_i attested hattested
        obtain ⟨rfl, rfl⟩ := fact_note h hnew
        exact ⟨rfl, hattested⟩
    case dispute a =>
      split at h
      · exact absurd h hnew
      · rename_i hdisputed
        obtain ⟨rfl, rfl⟩ := fact_note h hnew
        exact ⟨rfl, by simpa [Fact.Holds] using hdisputed⟩
    all_goals
      repeat' split at h
      all_goals exact absurd h hnew
  · split at h <;> exact absurd h hnew

/-- A fact was true when the run read it. -/
theorem Run.fact_holds (run : Run (watchdog oldId maxTimeOf)) {t : Nat} {r : RunId} {f : Fact}
    (h : f ∈ (run.state t).facts r) :
    ∃ u < t, (∃ i, run.event u = .step r i) ∧ f.Holds (run.state u).chain := by
  have hstart : f ∉ (run.state 0).facts r := by
    have hnone : run.first.facts r = [] := run.first_start.unread r
    change f ∉ run.first.facts r
    simp [hnone]
  obtain ⟨u, -, hut, hbefore, hafter⟩ :=
    run.exists_onset (P := fun s => f ∈ s.facts r) (Nat.zero_le t) hstart h
  change f ∈ ((run.event u).apply oldId maxTimeOf (run.state u)).facts r at hafter
  rcases apply_cases oldId maxTimeOf (run.event u) (run.state u) with
    ⟨r', i, he, happly⟩ | ⟨r', p, -, happly⟩ | ⟨c, happly, -⟩
  · rw [happly] at hafter
    obtain ⟨rfl, hholds⟩ := fact_advance hafter hbefore
    exact ⟨u, hut, ⟨i, he⟩, hholds⟩
  · rw [happly] at hafter
    exact absurd hafter hbefore
  · rw [happly] at hafter
    exact absurd hafter hbefore

/-- What a reader of a transaction must see to try another one. -/
def Chain.Settled (maxTimeOf : Hash → Nat) (c : Chain) (h : Hash) : Prop :=
  c.getTransaction h = .failed ∨ (c.getTransaction h = .notFound ∧ maxTimeOf h < c.closeTime)

theorem mem_of_update {f : Nat → List Hash} {target p : Nat} {h hash : Hash}
    (hh : h ∈ Function.update f p (hash :: f p) target) (hnew : h ∉ f target) : h = hash := by
  by_cases ht : target = p
  · subst ht
    rw [Function.update_self] at hh
    rcases List.mem_cons.mp hh with hh | hh
    · exact hh
    · exact absurd hh hnew
  · rw [Function.update_of_ne ht] at hh
    exact absurd hh hnew

theorem cleared_advance {s : State} (hs : Sound oldId maxTimeOf s) {r : RunId} {i : Input}
    {target : Nat} {h : Hash} (hh : h ∈ (s.advance oldId maxTimeOf r i).cleared target)
    (hnew : h ∉ s.cleared target) : s.chain.Settled maxTimeOf h := by
  unfold State.advance at hh
  split at hh
  · unfold State.proceed at hh
    cases hp : s.point r <;> rw [hp] at hh <;> dsimp only at hh
    case pendingTransaction p record =>
      have hok := hs.points r
      rw [hp] at hok
      obtain ⟨-, hash, -, hhash, hmax⟩ := hok
      simp only [hhash, hmax] at hh
      split at hh
      · exact absurd hh hnew
      · rename_i hfailed
        rw [mem_of_update hh hnew]
        exact .inl hfailed
      · rename_i hmissing
        split at hh
        · rename_i hexpired
          rw [mem_of_update hh hnew]
          exact .inr ⟨hmissing, hexpired⟩
        · exact absurd hh hnew
    all_goals
      repeat' split at hh
      all_goals exact absurd hh hnew
  · split at hh <;> exact absurd hh hnew

/-- A cleared transaction was found failed, or not found after its expiry. -/
theorem Run.cleared_settled (run : Run (watchdog oldId maxTimeOf)) {t target : Nat} {h : Hash}
    (hh : h ∈ (run.state t).cleared target) :
    ∃ u < t, (run.state u).chain.Settled maxTimeOf h := by
  have hstart : h ∉ (run.state 0).cleared target := by
    have hnone : run.first.cleared target = [] := run.first_start.uncleared target
    change h ∉ run.first.cleared target
    simp [hnone]
  obtain ⟨u, -, hut, hbefore, hafter⟩ :=
    run.exists_onset (P := fun s => h ∈ s.cleared target) (Nat.zero_le t) hstart hh
  change h ∈ ((run.event u).apply oldId maxTimeOf (run.state u)).cleared target at hafter
  refine ⟨u, hut, ?_⟩
  rcases apply_cases oldId maxTimeOf (run.event u) (run.state u) with
    ⟨r, i, -, happly⟩ | ⟨r, p, -, happly⟩ | ⟨c, happly, -⟩
  · rw [happly] at hafter
    exact cleared_advance (Run.sound run u) hafter hbefore
  · rw [happly] at hafter
    exact absurd hafter hbefore
  · rw [happly] at hafter
    exact absurd hafter hbefore

/-- The target of a run in its loop. -/
def Point.target? : Point → Option Nat
  | .reading p | .pendingDispute p _ | .pendingSettled p _ | .pendingTransaction p _
  | .attestation p _ => some p.target
  | .package a | .delivering a | .expiring a | .dispute a | .disputing a | .account a
  | .preparing a | .recording a _ | .sending a _ | .polling a _ | .confirming a _
  | .closing a _ => some a.pass.target
  | _ => none

theorem View.below {files : Nat → File} {p : Point} (h : View oldId maxTimeOf files p)
    {target : Nat} (htarget : p.target? = some target) : Below oldId files target := by
  cases p <;> simp only [Point.target?, Option.some.injEq, reduceCtorEq] at htarget <;>
    subst htarget
  case reading p => exact h
  all_goals exact h.1

end Sequence

end Watchdog
end ZkPoR
