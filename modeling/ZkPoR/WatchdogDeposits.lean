import ZkPoR.WatchdogSequence

/-! # The deposits of the watchdog

Runs one after the other never have two deposit transactions of one target that can
both land, and never lose what they recorded (`deposits_of_sequential`).  Overlapping
runs keep this as long as each finds the record that it replaces or sends for
(`deposits_of_current`).  Nothing in the protocol of the state file makes them: the first
record of a target is created exclusively, and every later one is renamed over whatever
is there, so that two runs that retry one record both send (`raced`), and a run that
retries can overwrite what another one delivered (`overwritten`).
-/
namespace ZkPoR
namespace Watchdog
open TransitionSystem

section Examples

/-- Runs after the attestation 1 of a registry with two attestations, and what earlier
runs left for the second.  The transaction `h` expires at `100 * h`. -/
def scene (file : File) (recorded : List Hash) : State where
  files := fun target => if target = 2 then file else .absent
  chain :=
    { ledger := 200
      closeTime := 150
      total := 2
      attestedLedger := fun target => if target = 2 then some 100 else none
      disputed := fun _ => false
      txs := fun _ => .unseen
      forgotten := fun _ => false }
  point := fun _ => .idle
  recorded := fun target => if target = 2 then recorded else []
  cleared := fun _ => []
  facts := fun _ => []
  sent := []

/-- A record left by a run whose transaction 1 has expired. -/
def expiredRecord : StateRecord := ⟨5, .pending, some 1, some 100⟩

theorem expired_initial : Initial (100 * ·) (scene (.record expiredRecord) [1]) := by
  refine ⟨fun _ => rfl, rfl, fun _ => rfl, fun _ => rfl, ?_, ?_, ?_⟩
  · intro target
    by_cases h : target = 2 <;> simp [scene, h]
  · intro target h hh
    by_cases ht : target = 2
    · have hone : h = 1 := by simpa [scene, ht] using hh
      exact ⟨expiredRecord, by simp [scene, ht], fun _ => by rw [hone]; rfl⟩
    · simp [scene, ht] at hh
  · intro target w hw _
    by_cases ht : target = 2
    · have hrecord : expiredRecord = w := by simpa [scene, ht] using hw
      exact ⟨1, by rw [← hrecord]; exact ⟨rfl, rfl, rfl⟩⟩
    · simp [scene, ht] at hw

/-- One step of a run that builds the transaction `hash`. -/
def go (r : RunId) (hash : Hash) : Event := .step r ⟨.none, false, hash⟩

/-- A schedule, after which nothing happens. -/
def play (events : List Event) (t : Nat) : Event := events.getD t (.close 0 0)

/-- A single run retries the expired transaction. -/
def retried : Run (watchdog 1 (100 * ·)) where
  first := scene (.record expiredRecord) [1]
  first_start := expired_initial
  event := play (.begin 0 (some 5) :: List.replicate 13 (go 0 2))

/-- Two runs find the same expired transaction, and both retry it. -/
def raced : Run (watchdog 1 (100 * ·)) where
  first := scene (.record expiredRecord) [1]
  first_start := expired_initial
  event := play ([.begin 0 (some 5), .begin 1 (some 5)] ++ List.replicate 11 (go 0 2) ++
    List.replicate 11 (go 1 3) ++ [go 0 2, go 0 2, go 1 3, go 1 3])

/-- One of the two finds the package delivered, and the other one retries. -/
def overwritten : Run (watchdog 1 (100 * ·)) where
  first := scene (.record expiredRecord) [1]
  first_start := expired_initial
  event := play ([.begin 0 (some 5), .begin 1 (some 5)] ++ List.replicate 11 (go 1 3) ++
    List.replicate 7 (go 0 2) ++ [.step 0 ⟨.none, true, 2⟩, go 0 2, go 1 3])

theorem retried_begin {t : Nat} {r : RunId} {value : Option Int}
    (h : retried.event t = .begin r value) : t = 0 := by
  cases t with
  | zero => rfl
  | succ t =>
    change (List.replicate 13 (go 0 2)).getD t (.close 0 0) = _ at h
    rw [List.getD_eq_getElem?_getD, List.getElem?_replicate] at h
    split at h <;> cases h

/-- A single run is not overlapped. -/
theorem retried_sequential : Sequential retried := by
  intro t r value h r'
  rw [retried_begin h]
  exact id

theorem retried_sends : Sends (retried.state 13) (retried.event 13) 0
    ⟨⟨5, 2, 200, 2, none, none⟩, some expiredRecord, 100⟩ 2 :=
  ⟨rfl, _, rfl, by decide⟩

end Examples

section Deposits
variable {oldId : Nat} {maxTimeOf : Hash → Nat}

/-- **Runs one after the other.**  In every sequence of runs that do not overlap, each
ending at any await, and whatever the ledger does in between:

* a run sends at most one transaction;
* a run that sends has stored its pending record with the hash and the expiry, has read
  that there is no dispute, and has read the ledger in the window of the target;
* every other transaction recorded for the target was found failed, or not found after
  its expiry, and cannot land any more;
* a run that looks at a target finds every earlier new one delivered, disputed or expired;
* at most one recorded transaction of a target can land at any time;
* a delivered, disputed or expired status stays. -/
theorem deposits_of_sequential (run : Run (watchdog oldId maxTimeOf)) (hseq : Sequential run)
    (t : Nat) :
    (∀ u v r a b hash hash', Sends (run.state u) (run.event u) r a hash →
      Sends (run.state v) (run.event v) r b hash' → u = v) ∧
    (∀ r a hash, Sends (run.state t) (run.event t) r a hash →
      (run.state t).files a.pass.target =
        .record ⟨a.pass.grace, .pending, some hash, some (maxTimeOf hash)⟩ ∧
      (∃ u < t, (∃ i, run.event u = .step r i) ∧
        (run.state u).chain.disputed a.pass.target = false) ∧
      (∃ u < t, (∃ i, run.event u = .step r i) ∧
        (run.state u).chain.ledger = a.pass.currentLedger) ∧
      (∃ u < t, (∃ i, run.event u = .step r i) ∧
        (run.state u).chain.attestedLedger a.pass.target = some a.attested) ∧
      a.attested + a.pass.grace ≤ a.pass.currentLedger ∧
      a.pass.currentLedger - a.attested ≤ 518400 ∧
      ∀ h ∈ (run.state t).recorded a.pass.target, h ≠ hash →
        (∃ u < t, (run.state u).chain.Settled maxTimeOf h) ∧
          ¬ (run.state t).chain.Live maxTimeOf h) ∧
    (∀ r target, ((run.state t).point r).target? = some target →
      ∀ before, oldId < before → before < target →
        ∃ w, (run.state t).files before = .record w ∧ w.status ≠ .pending) ∧
    (∀ target h h', h ∈ (run.state t).recorded target → h' ∈ (run.state t).recorded target →
      (run.state t).chain.Live maxTimeOf h → (run.state t).chain.Live maxTimeOf h' → h = h') ∧
    (∀ u ≤ t, ∀ target w, (run.state u).files target = .record w → w.status ≠ .pending →
      ∃ w', (run.state t).files target = .record w' ∧ w'.status = w.status) := by
  have hcurrent : ∀ u, Current maxTimeOf (run.state u) (run.event u) :=
    fun u => (Run.alone run hseq u).current (run.event u)
  have hsound := Run.sound run t
  refine ⟨fun u v r a b hash hash' => Run.sends_once run, ?_, ?_,
    fun target h h' => Run.live_unique run t fun u _ => hcurrent u,
    fun u hut target w => Run.terminal_stays run hut fun v _ => hcurrent v⟩
  · intro r a hash hsends
    have hown := (hcurrent t).2 r a hash hsends
    have hok := hsound.points r
    rw [hsends.1] at hok
    obtain ⟨hattempt, hdue, hclear⟩ := hok
    refine ⟨hown, Run.fact_holds run hclear, Run.fact_holds run hattempt.pass.ledger,
      Run.fact_holds run hattempt.attested, hdue.deadline, hdue.age, ?_⟩
    intro h hh hne
    have hcleared := Run.cleared_of_sends run t (fun u _ => hcurrent u) hsends hh hne
    exact ⟨Run.cleared_settled run hcleared, hsound.dead a.pass.target h hcleared⟩
  · intro r target htarget
    exact ((Run.alone run hseq t).view r).below htarget

theorem retried_deposits :
    (retried.state 13).files 2 = .record ⟨5, .pending, some 2, some 200⟩ ∧
      ¬ (retried.state 13).chain.Live (100 * ·) 1 := by
  obtain ⟨-, hsend, -⟩ := deposits_of_sequential retried retried_sequential 13
  obtain ⟨hfile, -, -, -, -, -, hothers⟩ := hsend 0 _ 2 retried_sends
  exact ⟨hfile, (hothers 1 (by decide) (by decide)).2⟩

/-- **Overlapping runs.**  In a run of the system whose steps all find the record that
they replace or send for, at most one recorded transaction of a target can still land,
nothing is sent while another recorded transaction of the target can land, and a
delivered, disputed or expired status stays. -/
theorem deposits_of_current (run : Run (watchdog oldId maxTimeOf)) (t : Nat)
    (hcurrent : ∀ u ≤ t, Current maxTimeOf (run.state u) (run.event u)) :
    (∀ target h h', h ∈ (run.state t).recorded target → h' ∈ (run.state t).recorded target →
      (run.state t).chain.Live maxTimeOf h → (run.state t).chain.Live maxTimeOf h' → h = h') ∧
    (∀ r a hash, Sends (run.state t) (run.event t) r a hash →
      ∀ h ∈ (run.state t).recorded a.pass.target, h ≠ hash →
        ¬ (run.state t).chain.Live maxTimeOf h) ∧
    (∀ u ≤ t, ∀ target w, (run.state u).files target = .record w → w.status ≠ .pending →
      ∃ w', (run.state t).files target = .record w' ∧ w'.status = w.status) := by
  refine ⟨fun target h h' => Run.live_unique run t fun u hu => hcurrent u hu.le, ?_,
    fun u hut target w => Run.terminal_stays run hut fun v hv => hcurrent v hv.le⟩
  intro r a hash hsends h hh hne
  exact (Run.sound run t).dead a.pass.target h (Run.cleared_of_sends run t hcurrent hsends hh hne)

theorem retried_current : ¬ (retried.state 13).chain.Live (100 * ·) 1 := by
  have hcurrent : ∀ u, Current (100 * ·) (retried.state u) (retried.event u) :=
    fun u => (Run.alone retried retried_sequential u).current (retried.event u)
  exact (deposits_of_current retried 13 fun u _ => hcurrent u).2.1 0 _ 2 retried_sends 1
    (by decide) (by decide)

/-- Two overlapping runs send transactions for one target that can both land, and a run
that retries overwrites a delivered status by a pending one. -/
theorem overlap_not_safe :
    (¬ ∀ (oldId : Nat) (maxTimeOf : Hash → Nat) (run : Run (watchdog oldId maxTimeOf)) (t : Nat)
      (target h h' : Nat), h ∈ (run.state t).recorded target → h' ∈ (run.state t).recorded target →
      (run.state t).chain.Live maxTimeOf h → (run.state t).chain.Live maxTimeOf h' → h = h') ∧
    (¬ ∀ (oldId : Nat) (maxTimeOf : Hash → Nat) (run : Run (watchdog oldId maxTimeOf)) (t : Nat)
      (r : RunId) (a : Attempt) (hash : Hash), Sends (run.state t) (run.event t) r a hash →
      ∀ h ∈ (run.state t).recorded a.pass.target, h ≠ hash →
        ¬ (run.state t).chain.Live maxTimeOf h) ∧
    (¬ ∀ (oldId : Nat) (maxTimeOf : Hash → Nat) (run : Run (watchdog oldId maxTimeOf)) (u t : Nat),
      u ≤ t → ∀ target w, (run.state u).files target = .record w → w.status ≠ .pending →
        ∃ w', (run.state t).files target = .record w' ∧ w'.status = w.status) := by
  have hlive : ∀ hash : Nat, 2 ≤ hash → (raced.state 27).chain.Live (100 * ·) hash := by
    intro hash hle
    have hexpiry : 150 ≤ 100 * hash := by omega
    exact ⟨rfl, hexpiry⟩
  refine ⟨?_, ?_, ?_⟩
  · intro h
    have hsame := h 1 (100 * ·) raced 27 2 3 2 (by decide) (by decide) (hlive 3 (by decide))
      (hlive 2 (by decide))
    cases hsame
  · intro h
    have hsends : Sends (raced.state 27) (raced.event 27) 1
        ⟨⟨5, 2, 200, 2, none, none⟩, some expiredRecord, 100⟩ 3 := ⟨rfl, _, rfl, by decide⟩
    exact h 1 (100 * ·) raced 27 1 _ 3 hsends 2 (by decide) (by decide) (hlive 2 (by decide))
  · intro h
    obtain ⟨w, hw, hstatus⟩ := h 1 (100 * ·) overwritten 22 23 (by decide) 2
      ⟨5, .delivered, none, none⟩ rfl (by decide)
    have hafter : (overwritten.state 23).files 2 = .record ⟨5, .pending, some 3, some 300⟩ := rfl
    cases hw.symm.trans hafter
    cases hstatus

end Deposits
end Watchdog
end ZkPoR
