import ZkPoR.WatchdogRuns

/-! # Overlapping watchdog runs

Runs that overlap on one state directory keep the deposits safe as long as each of
them replaces and sends for the record that it last read or wrote.  Nothing in the
protocol of the state file makes them: the first record of a target is created
exclusively, and every later one is renamed over whatever is there.
-/
namespace ZkPoR
namespace Watchdog
open TransitionSystem

section Overlap
variable {oldId : Nat} {maxTimeOf : Hash → Nat}

/-- At most one recorded transaction of a target is not known to be settled, and the
record of the target stands for it. -/
structure Kept (s : State) : Prop where
  unique : ∀ target h h', h ∈ s.recorded target → h ∉ s.cleared target →
    h' ∈ s.recorded target → h' ∉ s.cleared target → h = h'
  stored : ∀ target h, h ∈ s.recorded target → h ∉ s.cleared target →
    ∃ w, s.files target = .record w ∧ (w.status = .pending → w.transactionHash = some h)

theorem Kept.of_initial {s : State} (h : Initial maxTimeOf s) : Kept s := by
  refine ⟨?_, fun target x hx _ => h.stored target x hx⟩
  intro target x y hx _ hy _
  have hsingle := h.single target
  match hlist : s.recorded target, hsingle with
  | [], _ =>
    rw [hlist] at hx
    cases hx
  | [z], _ =>
    rw [hlist, List.mem_singleton] at hx hy
    rw [hx, hy]

/-- A file that is not a record has no open transaction. -/
theorem Kept.none_open {s : State} (hk : Kept s) {target : Nat}
    (hfile : ∀ w, s.files target ≠ .record w) : ∀ h ∈ s.recorded target, h ∈ s.cleared target := by
  intro h hh
  by_contra hopen
  obtain ⟨w, hw, -⟩ := hk.stored target h hh hopen
  exact hfile w hw

/-- Fewer open transactions of the same records are kept. -/
theorem Kept.of_cleared {s s' : State} (hk : Kept s) (hfiles : s'.files = s.files)
    (hrecorded : s'.recorded = s.recorded)
    (hcleared : ∀ target, ∀ h ∈ s.cleared target, h ∈ s'.cleared target) : Kept s' := by
  refine ⟨?_, ?_⟩
  · intro target h h' hh hopen hh' hopen'
    rw [hrecorded] at hh hh'
    exact hk.unique target h h' hh (fun hc => hopen (hcleared target h hc)) hh'
      (fun hc => hopen' (hcleared target h' hc))
  · intro target h hh hopen
    rw [hrecorded] at hh
    rw [hfiles]
    exact hk.stored target h hh (fun hc => hopen (hcleared target h hc))

/-- A step that changes the file and the records of one target has to keep what is said
of this target. -/
theorem Kept.of_target {s s' : State} (hk : Kept s) {target : Nat} {file : File}
    (hfiles : s'.files = Function.update s.files target file)
    (hrecorded : ∀ other, other ≠ target → s'.recorded other = s.recorded other)
    (hcleared : s'.cleared = s.cleared)
    (hunique : ∀ h h', h ∈ s'.recorded target → h ∉ s.cleared target → h' ∈ s'.recorded target →
      h' ∉ s.cleared target → h = h')
    (hstored : ∀ h, h ∈ s'.recorded target → h ∉ s.cleared target →
      ∃ w, file = .record w ∧ (w.status = .pending → w.transactionHash = some h)) : Kept s' := by
  refine ⟨?_, ?_⟩
  · intro other h h' hh hopen hh' hopen'
    rw [hcleared] at hopen hopen'
    by_cases ht : other = target
    · subst ht
      exact hunique h h' hh hopen hh' hopen'
    · rw [hrecorded other ht] at hh hh'
      exact hk.unique other h h' hh hopen hh' hopen'
  · intro other h hh hopen
    rw [hcleared] at hopen
    rw [hfiles]
    by_cases ht : other = target
    · subst ht
      rw [Function.update_self]
      exact hstored h hh hopen
    · rw [hrecorded other ht] at hh
      rw [Function.update_of_ne ht]
      exact hk.stored other h hh hopen

/-- No transaction of a target is open when a current run records a new one. -/
theorem Kept.none_open_of_current {s : State} (hs : Sound oldId maxTimeOf s) (hk : Kept s)
    {r : RunId} {i : Input} {target : Nat} {view : Option StateRecord} {n : StateRecord}
    (hwrite : (s.point r).write maxTimeOf = some (target, view, n))
    (hcurrent : Current maxTimeOf s (.step r i)) (hpending : n.status = .pending)
    (hfault : i.fault = .none ∨ i.fault = .after)
    (habsent : view = none → s.files target = .absent) :
    ∀ h ∈ s.recorded target, h ∈ s.cleared target := by
  cases view with
  | none =>
    refine hk.none_open ?_
    rw [habsent rfl]
    intro w hw
    cases hw
  | some view =>
    intro h hh
    by_contra hopen
    obtain ⟨w, hw, hhash⟩ := hk.stored target h hh hopen
    obtain ⟨hash, hnames, hcleared⟩ := cleared_of_write (hs.points r) hwrite hpending
    rcases hcurrent.1 r i target view n rfl hwrite hfault with hview | ⟨w', -, -, hne⟩
    · cases hw.symm.trans hview
      have hsome := hhash hnames.1
      rw [hnames.2.1] at hsome
      cases hsome
      exact hopen hcleared
    · exact hne hpending

theorem Kept.store {s : State} (hs : Sound oldId maxTimeOf s) (hk : Kept s) {r : RunId} {i : Input}
    {target : Nat} {view : Option StateRecord} {n : StateRecord} {next : Point}
    (hwrite : (s.point r).write maxTimeOf = some (target, view, n))
    (hcurrent : Current maxTimeOf s (.step r i)) : Kept (s.store r target view n i.fault next) := by
  rcases store_cases (s.files target) view n i.fault with
    ⟨hn, hstores, hfault, habsent⟩ | ⟨hsame, hstores⟩ | ⟨hbad, hstores, habsent⟩
  · by_cases hpending : n.status = .pending
    · have hnone := hk.none_open_of_current hs hwrite hcurrent hpending hfault habsent
      obtain ⟨a, hash, -, hnames⟩ := names_of_write hwrite hpending
      have hrecorded : (s.store r target view n i.fault next).recorded =
          Function.update s.recorded target (hash :: s.recorded target) := by
        simp [State.store, hstores, hpending, hnames.2.1]
      have honly : ∀ h, h ∈ (s.store r target view n i.fault next).recorded target →
          h ∉ s.cleared target → h = hash := by
        intro h hh hopen
        rw [hrecorded, Function.update_self] at hh
        rcases List.mem_cons.mp hh with rfl | hh
        · rfl
        · exact absurd (hnone h hh) hopen
      refine hk.of_target (store_files ..) ?_ rfl ?_ ?_
      · intro other hother
        rw [hrecorded, Function.update_of_ne hother]
      · intro h h' hh hopen hh' hopen'
        rw [honly h hh hopen, honly h' hh' hopen']
      · intro h hh hopen
        refine ⟨n, hn, fun _ => ?_⟩
        rw [honly h hh hopen]
        exact hnames.2.1
    · have hrecorded : (s.store r target view n i.fault next).recorded = s.recorded := by
        simp [State.store, hpending]
      refine hk.of_target (store_files ..) (fun other _ => by rw [hrecorded]) rfl ?_ ?_
      · rw [hrecorded]
        exact hk.unique target
      · exact fun h _ _ => ⟨n, hn, fun h => absurd h hpending⟩
  · refine hk.of_cleared ?_ ?_ fun _ _ h => h
    · rw [store_files, hsame, Function.update_eq_self]
    · simp [State.store, hstores]
  · have hrecorded : (s.store r target view n i.fault next).recorded = s.recorded := by
      simp [State.store, hstores]
    refine hk.of_target (store_files ..) (fun other _ => by rw [hrecorded]) rfl ?_ ?_
    · rw [hrecorded]
      exact hk.unique target
    · -- a file that was absent had no open transaction
      intro h hh hopen
      rw [hrecorded] at hh
      obtain ⟨w, hw, -⟩ := hk.stored target h hh hopen
      rw [habsent] at hw
      cases hw

theorem Kept.apply {s : State} (hs : Sound oldId maxTimeOf s) (hk : Kept s) {e : Event}
    (hcurrent : Current maxTimeOf s e) : Kept (e.apply oldId maxTimeOf s) := by
  rcases apply_cases oldId maxTimeOf e s with
    ⟨r, i, rfl, h⟩ | ⟨r, p, -, h⟩ | ⟨c, h, -⟩
  · rw [h]
    rcases advance_files oldId maxTimeOf s r i with
      ⟨hfiles, hrecorded⟩ | ⟨target, view, n, next, hwrite, hstore⟩
    · exact hk.of_cleared hfiles hrecorded (hs.advance r i).cleared
    · rw [hstore]
      exact Kept.store hs hk hwrite hcurrent
  · rw [h]
    exact hk.of_cleared rfl rfl fun _ _ h => h
  · rw [h]
    exact hk.of_cleared rfl rfl fun _ _ h => h

/-- A terminal status stays through a step. -/
theorem terminal_apply {s : State} (hs : Sound oldId maxTimeOf s) {e : Event}
    (hcurrent : Current maxTimeOf s e) {target : Nat} {w : StateRecord}
    (hw : s.files target = .record w) (hterminal : w.status ≠ .pending) :
    ∃ w', (e.apply oldId maxTimeOf s).files target = .record w' ∧ w'.status = w.status := by
  rcases apply_cases oldId maxTimeOf e s with
    ⟨r, i, rfl, h⟩ | ⟨r, p, -, h⟩ | ⟨c, h, -⟩
  · rw [h]
    rcases advance_files oldId maxTimeOf s r i with
      ⟨hfiles, -⟩ | ⟨target', view, n, next, hwrite, hstore⟩
    · exact ⟨w, by rw [hfiles, hw], rfl⟩
    · rw [hstore, store_files]
      by_cases ht : target = target'
      · subst ht
        rw [Function.update_self]
        rcases store_cases (s.files target) view n i.fault with
          ⟨hn, -, hfault, habsent⟩ | ⟨hsame, -⟩ | ⟨-, -, habsent⟩
        · cases view with
          | none =>
            rw [habsent rfl] at hw
            cases hw
          | some view =>
            rcases hcurrent.1 r i target view n rfl hwrite hfault with hview | ⟨w', hw', hstatus, -⟩
            · cases hw.symm.trans hview
              exact absurd (pending_of_write (hs.points r) hwrite) hterminal
            · cases hw.symm.trans hw'
              exact ⟨n, hn, hstatus.symm⟩
        · exact ⟨w, by rw [hsame, hw], rfl⟩
        · rw [habsent] at hw
          cases hw
      · rw [Function.update_of_ne ht]
        exact ⟨w, hw, rfl⟩
  · exact ⟨w, by rw [h]; exact hw, rfl⟩
  · exact ⟨w, by rw [h]; exact hw, rfl⟩

theorem Run.kept (run : Run (watchdog oldId maxTimeOf)) (t : Nat)
    (hcurrent : ∀ u < t, Current maxTimeOf (run.state u) (run.event u)) : Kept (run.state t) :=
  run.invariant_upto (P := Kept) (fun _ => Kept.of_initial) t
    fun u hu hk => Kept.apply (Run.sound run u) hk (hcurrent u hu)

/-- At most one recorded transaction of a target can still land. -/
theorem Run.live_unique (run : Run (watchdog oldId maxTimeOf)) (t : Nat)
    (hcurrent : ∀ u < t, Current maxTimeOf (run.state u) (run.event u)) {target : Nat}
    {h h' : Hash} (hh : h ∈ (run.state t).recorded target)
    (hh' : h' ∈ (run.state t).recorded target) (hlive : (run.state t).chain.Live maxTimeOf h)
    (hlive' : (run.state t).chain.Live maxTimeOf h') : h = h' :=
  (Run.kept run t hcurrent).unique target h h' hh
    (fun hcleared => (Run.sound run t).dead target h hcleared hlive) hh'
    (fun hcleared => (Run.sound run t).dead target h' hcleared hlive')

/-- A run that sends finds the other transactions of the target cleared. -/
theorem Run.cleared_of_sends (run : Run (watchdog oldId maxTimeOf)) (t : Nat)
    (hcurrent : ∀ u ≤ t, Current maxTimeOf (run.state u) (run.event u)) {r : RunId} {a : Attempt}
    {hash h : Hash} (hsends : Sends (run.state t) (run.event t) r a hash)
    (hh : h ∈ (run.state t).recorded a.pass.target) (hne : h ≠ hash) :
    h ∈ (run.state t).cleared a.pass.target := by
  by_contra hopen
  have hkept := Run.kept run t fun u hu => hcurrent u hu.le
  obtain ⟨w, hw, hhash⟩ := hkept.stored a.pass.target h hh hopen
  have hown := (hcurrent t le_rfl).2 r a hash hsends
  cases hw.symm.trans hown
  exact hne (Option.some.inj (hhash rfl)).symm

/-- A terminal status stays in a stretch of a run. -/
theorem Run.terminal_stays (run : Run (watchdog oldId maxTimeOf)) {u t : Nat} (hut : u ≤ t)
    (hcurrent : ∀ v < t, Current maxTimeOf (run.state v) (run.event v)) {target : Nat}
    {w : StateRecord} (hw : (run.state u).files target = .record w)
    (hterminal : w.status ≠ .pending) :
    ∃ w', (run.state t).files target = .record w' ∧ w'.status = w.status := by
  induction t, hut using Nat.le_induction with
  | base => exact ⟨w, hw, rfl⟩
  | succ t hut ih =>
    obtain ⟨w', hw', hstatus⟩ := ih fun v hv => hcurrent v (Nat.lt_succ_of_lt hv)
    obtain ⟨w'', hw'', hstatus'⟩ := terminal_apply (Run.sound run t)
      (hcurrent t (Nat.lt_succ_self t)) hw' (hstatus ▸ hterminal)
    exact ⟨w'', hw'', hstatus'.trans hstatus⟩

end Overlap

end Watchdog
end ZkPoR
