import ZkPoR.RunStore
import ZkPoR.TransitionSystem

/-! # The run store over the life of a process

A process calls `startOrJoin`, the works that it began call back, and each work ends once,
by return or by throw, in any order.  An event is what one turn does to the store.  A work
that calls back or ends while `startOrJoin` is still on the stack does so after the store
holds the new run, so these are later events as well.

A work keeps its callbacks after it ended, so a callback can come at any time.
`Consistent` says that the identity of the open run, the stage of the records, and the
works that have not ended are three readings of one fact.  Identities are not given
twice (`UniqueIds`), which only the statements about one run over time need.
-/
namespace ZkPoR.Dashboard
open InsertionMap

/-- The store, the works that have not ended, and the identities that were given. -/
structure Process where
  store : RunStore
  awaiting : OrderedMap String RunAction
  begun : List String

def Process.initial : Process := ⟨.empty, .empty, []⟩

/-- What one turn does to the store. -/
inductive Event
  | startOrJoin (request : RunRequest) (randomUUID : String) (now : Int)
  | callback (id : String) (c : Callback) (now : Int)
  | ends (id : String) (ending : Ending) (now later : Int)

/-- The process after an event.  Only a work that began calls back, and only a work that
has not ended ends. -/
def Event.apply : Event → Process → Process
  | startOrJoin request randomUUID now, p =>
    match p.store.startOrJoin request randomUUID now with
    | .error _ => p
    | .ok (result, store) =>
      if result.started then
        { store
          awaiting := p.awaiting.set result.run.id request.action
          begun := p.begun ++ [result.run.id] }
      else { p with store }
  | callback id c now, p =>
    if id ∈ p.begun then
      match p.store.callback id now c with
      | .error _ => p
      | .ok store => { p with store }
    else p
  | ends id ending now later, p =>
    match p.awaiting.get id with
    | none => p
    | some action =>
      { p with
        store := p.store.settle id action now later ending
        awaiting := p.awaiting.delete id }

/-- The dashboard process. -/
def dashboard : TransitionSystem.Machine Process Event where
  start p := p = .initial
  apply := Event.apply

/-- **What an event does.** -/
inductive Step (p : Process) : Event → Process → Prop
  | start {request uuid now store} (idle : p.store.openRunId = none)
      (opened : store.openRunId = some uuid)
      (runs : ∀ id, store.runs.get id =
        if id = uuid then some (RunStore.newRun request uuid) else p.store.forget.runs.get id)
      (bounded : store.runs.size ≤ MAX_REMEMBERED_RUNS) :
      Step p (.startOrJoin request uuid now)
        ⟨store, p.awaiting.set uuid request.action, p.begun ++ [uuid]⟩
  | callback {id c now line} (begun : id ∈ p.begun)
      (recorded : p.store.callback id now c = .ok ((p.store.write line).change id c.next)) :
      Step p (.callback id c now) { p with store := (p.store.write line).change id c.next }
  | ends {id ending now later action} (awaiting : p.awaiting.get id = some action) :
      Step p (.ends id ending now later)
        { p with
          store := p.store.settle id action now later ending
          awaiting := p.awaiting.delete id }
  | idle {e} : Step p e p

theorem Event.step (e : Event) (p : Process) : Step p e (e.apply p) := by
  cases e with
  | startOrJoin request uuid now =>
    cases hopen : p.store.openRunId with
    | none =>
      obtain ⟨store, hstart, hopened, hruns, hbounded⟩ :=
        p.store.startOrJoin_of_none hopen request uuid now
      rw [apply, hstart]
      exact .start hopen hopened hruns hbounded
    | some id =>
      cases hrun : p.store.runs.get id with
      | none =>
        rw [apply, RunStore.startOrJoin, hopen]
        dsimp only
        rw [hrun]
        exact .idle
      | some run =>
        rw [apply, p.store.startOrJoin_of_some hopen hrun]
        exact .idle
  | callback id c now =>
    rw [apply]
    split
    · rename_i hbegun
      split
      · exact .idle
      · rename_i store hstore
        obtain ⟨line, rfl⟩ := p.store.callback_eq_ok hstore
        exact .callback hbegun hstore
    · exact .idle
  | ends id ending now later =>
    rw [apply]
    split
    · exact .idle
    · rename_i action haction
      exact .ends haction

/-! ## The invariant -/

/-- **The open identity, the stages, and the works that have not ended agree.** -/
structure Consistent (p : Process) : Prop where
  open_iff : ∀ id, p.store.openRunId = some id ↔
    ∃ run, p.store.runs.get id = some run ∧ run.stage = .running
  awaiting_iff : ∀ id, (p.awaiting.get id).isSome ↔ p.store.openRunId = some id
  bounded : p.store.runs.size ≤ MAX_REMEMBERED_RUNS
  named : ∀ id run, p.store.runs.get id = some run → run.id = id
  begun : ∀ id run, p.store.runs.get id = some run → id ∈ p.begun

theorem Consistent.initial : Consistent .initial where
  open_iff id := by simp [Process.initial, RunStore.empty]
  awaiting_iff id := by simp [Process.initial, RunStore.empty]
  bounded := Nat.zero_le _
  named id run h := by simp [Process.initial, RunStore.empty] at h
  begun id run h := by simp [Process.initial, RunStore.empty] at h

variable {p p' : Process} {e : Event}

/-- A record that stands after `forget` stood before it. -/
theorem get_of_get_forget {id : String} {run : Run}
    (h : p.store.forget.runs.get id = some run) : p.store.runs.get id = some run := by
  rcases p.store.forget_forgets.kept id with hkept | ⟨hnone, -⟩
  · rwa [← hkept]
  · rw [hnone] at h
    cases h

/-- While no run is open, no record that `forget` leaves is running. -/
theorem Consistent.stage_ne_running (hi : Consistent p) (idle : p.store.openRunId = none)
    {id : String} {run : Run} (hrun : p.store.forget.runs.get id = some run) :
    run.stage ≠ .running := by
  intro hstage
  have hopen := (hi.open_iff id).mpr ⟨run, get_of_get_forget hrun, hstage⟩
  rw [idle] at hopen
  cases hopen

theorem Consistent.start {request : RunRequest} {uuid : String} {store : RunStore}
    (hi : Consistent p) (idle : p.store.openRunId = none) (opened : store.openRunId = some uuid)
    (runs : ∀ id, store.runs.get id =
      if id = uuid then some (RunStore.newRun request uuid) else p.store.forget.runs.get id)
    (bounded : store.runs.size ≤ MAX_REMEMBERED_RUNS) :
    Consistent ⟨store, p.awaiting.set uuid request.action, p.begun ++ [uuid]⟩ where
  open_iff id := by
    rw [opened, runs]
    by_cases hid : id = uuid
    · subst hid
      simp [RunStore.newRun]
    · rw [if_neg hid]
      constructor
      · intro h
        exact absurd (Option.some.inj h).symm hid
      · rintro ⟨run, hrun, hstage⟩
        exact absurd hstage (hi.stage_ne_running idle hrun)
  awaiting_iff id := by
    rw [opened]
    by_cases hid : id = uuid
    · subst hid
      simp
    · have hawaiting := hi.awaiting_iff id
      rw [idle] at hawaiting
      rw [OrderedMap.get_set_of_ne _ _ hid, hawaiting]
      simp [Ne.symm hid]
  bounded := bounded
  named id run hrun := by
    rw [runs] at hrun
    split at hrun
    · rename_i hid
      rw [← Option.some.inj hrun, hid]
      rfl
    · exact hi.named id run (get_of_get_forget hrun)
  begun id run hrun := by
    rw [runs] at hrun
    split at hrun
    · rename_i hid
      simp [hid]
    · exact List.mem_append_left _ (hi.begun id run (get_of_get_forget hrun))

theorem Consistent.callback {id : String} {c : Callback} {line : LogEvent} (hi : Consistent p)
    (begun : id ∈ p.begun) :
    Consistent { p with store := (p.store.write line).change id c.next } where
  open_iff id' := by
    rw [RunStore.change_openRunId, RunStore.write_openRunId, hi.open_iff, RunStore.get_change,
      RunStore.write_runs]
    split
    · rename_i hid
      subst hid
      simp
    · rfl
  awaiting_iff id' := by
    rw [RunStore.change_openRunId, RunStore.write_openRunId]
    exact hi.awaiting_iff id'
  bounded := by
    rw [RunStore.size_change]
    exact hi.bounded
  named id' run hrun := by
    rw [RunStore.get_change, RunStore.write_runs] at hrun
    split at hrun
    · rename_i hid
      obtain ⟨old, hold, rfl⟩ := Option.map_eq_some_iff.mp hrun
      rw [Callback.next_id, hid, hi.named id old hold]
    · exact hi.named id' run hrun
  begun id' run hrun := by
    rw [RunStore.get_change, RunStore.write_runs] at hrun
    split at hrun
    · rename_i hid
      exact hid ▸ begun
    · exact hi.begun id' run hrun

theorem Ending.stage_ne_running (ending : Ending) : ending.stage ≠ .running := by
  intro hrunning
  cases ending <;> cases hrunning

theorem Consistent.ends {id : String} {ending : Ending} {now later : Int} {action : RunAction}
    (hi : Consistent p) (awaiting : p.awaiting.get id = some action) :
    Consistent { p with
      store := p.store.settle id action now later ending
      awaiting := p.awaiting.delete id } := by
  have hopen : p.store.openRunId = some id := (hi.awaiting_iff id).mp (by simp [awaiting])
  constructor
  case open_iff =>
    intro id'
    rw [RunStore.settle_openRunId, if_pos hopen, RunStore.get_settle]
    constructor
    · intro hnone
      cases hnone
    · rintro ⟨run, hrun, hrunning⟩
      split at hrun
      · obtain ⟨old, -, rfl⟩ := Option.map_eq_some_iff.mp hrun
        exact absurd ((Ending.next_stage ending old).symm.trans hrunning) ending.stage_ne_running
      · rename_i hid
        have hother := (hi.open_iff id').mpr ⟨run, hrun, hrunning⟩
        exact absurd (Option.some.inj (hother.symm.trans hopen)) hid
  case awaiting_iff =>
    intro id'
    rw [RunStore.settle_openRunId, if_pos hopen]
    by_cases hid : id' = id
    · subst hid
      simp
    · rw [OrderedMap.get_delete_of_ne _ hid, hi.awaiting_iff, hopen]
      simp [Ne.symm hid]
  case bounded =>
    rw [RunStore.size_settle]
    exact hi.bounded
  case named =>
    intro id' run hrun
    rw [RunStore.get_settle] at hrun
    split at hrun
    · rename_i hid
      obtain ⟨old, hold, rfl⟩ := Option.map_eq_some_iff.mp hrun
      rw [Ending.next_id, hid, hi.named id old hold]
    · exact hi.named id' run hrun
  case begun =>
    intro id' run hrun
    rw [RunStore.get_settle] at hrun
    split at hrun
    · rename_i hid
      obtain ⟨old, hold, -⟩ := Option.map_eq_some_iff.mp hrun
      exact hid ▸ hi.begun id old hold
    · exact hi.begun id' run hrun

/-- **Every event keeps the process consistent.** -/
theorem Consistent.step (hstep : Step p e p') (hi : Consistent p) : Consistent p' := by
  cases hstep with
  | start idle opened runs bounded => exact hi.start idle opened runs bounded
  | callback begun _ => exact hi.callback begun
  | ends awaiting => exact hi.ends awaiting
  | idle => exact hi

/-! ## One record over time -/

/-- What a callback records stands in the record. -/
def Callback.Held : Callback → Run → Prop
  | .step text, run => text ∈ run.steps
  | .proof summary, run => run.proof = some summary
  | .window reading, run => run.window = some reading
  | .submission accepted, run => run.submission = some accepted

/-- A later callback takes the place of an earlier one: a record holds one proof, one
reading of the window, and one submission, and all steps. -/
def Callback.Supersedes : Callback → Callback → Prop
  | .proof _, .proof _ => True
  | .window _, .window _ => True
  | .submission _, .submission _ => True
  | _, _ => False

theorem Callback.held_next (c : Callback) (run : Run) : c.Held (c.next run) := by
  cases c <;> simp [Held, next]

theorem Callback.Held.next {c c' : Callback} {run : Run} (h : c.Held run)
    (hnot : ¬ c'.Supersedes c) : c.Held (c'.next run) := by
  cases c <;> cases c' <;> simp_all [Held, Callback.next, Supersedes]

/-- A failure takes nothing from a record. -/
theorem Callback.Held.threw {c : Callback} {run : Run} (h : c.Held run) (cause : Cause) :
    c.Held ((Ending.threw cause).next run) := by
  cases c <;> exact h

/-- The step that an event reports of a run. -/
def Event.reportedStep (id : String) (p : Process) : Event → List String
  | callback id' (.step text) _ => if id' = id ∧ id ∈ p.begun then [text] else []
  | _ => []

/-- A run of the dashboard process. -/
abbrev DashboardRun := TransitionSystem.Run dashboard

namespace DashboardRun
variable (run : DashboardRun)

theorem step (t : Nat) : Step (run.state t) (run.event t) (run.state (t + 1)) :=
  (run.event t).step (run.state t)

theorem consistent (t : Nat) : Consistent (run.state t) := by
  refine TransitionSystem.Run.invariant run (fun p hp => ?_) (fun e p hp => hp.step (e.step p)) t
  rw [show p = .initial from hp]
  exact .initial

/-- A run starts at an instant. -/
def Starts (t : Nat) (id : String) : Prop :=
  (∃ request now, run.event t = .startOrJoin request id now) ∧
    (run.state t).store.openRunId = none

/-- Every identity is given once. -/
def UniqueIds : Prop := ∀ t u id, run.Starts t id → run.Starts u id → t = u

/-- A callback of a run takes effect at an instant. -/
def Reports (t : Nat) (id : String) (c : Callback) : Prop :=
  id ∈ (run.state t).begun ∧ ∃ now store, run.event t = .callback id c now ∧
    (run.state t).store.callback id now c = .ok store

/-- The work of a run ends at an instant. -/
def Ends (t : Nat) (id : String) (ending : Ending) : Prop :=
  ((run.state t).awaiting.get id).isSome ∧
    ∃ now later, run.event t = .ends id ending now later

/-- The steps that a run reported before an instant, in order. -/
def stepsBefore (id : String) : Nat → List String
  | 0 => []
  | t + 1 => stepsBefore id t ++ (run.event t).reportedStep id (run.state t)

variable {run}

/-- An identity that was given was given by an earlier start. -/
theorem exists_starts {t : Nat} {id : String} (h : id ∈ (run.state t).begun) :
    ∃ u < t, run.Starts u id := by
  induction t with
  | zero =>
    have hinitial : run.state 0 = .initial := run.first_start
    rw [hinitial] at h
    cases h
  | succ t ih =>
    have hearlier : id ∈ (run.state t).begun → ∃ u < t + 1, run.Starts u id := fun hid => by
      obtain ⟨u, hut, hu⟩ := ih hid
      exact ⟨u, Nat.lt_succ_of_lt hut, hu⟩
    have hstep := run.step t
    generalize he : run.event t = e at hstep
    generalize hs : run.state (t + 1) = p' at hstep h
    cases hstep with
    | @start request uuid now store idle opened runs bounded =>
      rcases List.mem_append.mp h with hold | hnew
      · exact hearlier hold
      · obtain rfl := List.mem_singleton.mp hnew
        exact ⟨t, Nat.lt_succ_self t, ⟨request, now, he⟩, idle⟩
    | callback => exact hearlier h
    | ends => exact hearlier h
    | idle => exact hearlier h

/-- An identity that was given is not given again. -/
theorem UniqueIds.not_starts (hunique : run.UniqueIds) {t : Nat} {id : String}
    (h : id ∈ (run.state t).begun) : ¬ run.Starts t id := by
  intro hstarts
  obtain ⟨u, hut, hu⟩ := exists_starts h
  exact absurd (hunique u t id hu hstarts) hut.ne

theorem begun_succ {t : Nat} {id : String} (h : id ∈ (run.state t).begun) :
    id ∈ (run.state (t + 1)).begun := by
  have hstep := run.step t
  generalize run.event t = e at hstep
  generalize run.state (t + 1) = p' at hstep ⊢
  cases hstep with
  | start => exact List.mem_append_left _ h
  | callback => exact h
  | ends => exact h
  | idle => exact h

theorem begun_mono {t u : Nat} (htu : t ≤ u) {id : String} (h : id ∈ (run.state t).begun) :
    id ∈ (run.state u).begun :=
  TransitionSystem.Run.stable run (P := fun p => id ∈ p.begun) (fun _ => begun_succ) htu h

/-- A callback that takes effect changes the record of its run. -/
theorem Reports.get {t : Nat} {id : String} {c : Callback} (h : run.Reports t id c) :
    (run.state (t + 1)).store.runs.get id = ((run.state t).store.runs.get id).map c.next := by
  obtain ⟨hbegun, now, store, hevent, hstore⟩ := h
  obtain ⟨line, rfl⟩ := RunStore.callback_eq_ok _ hstore
  have hstate : run.state (t + 1) = (run.event t).apply (run.state t) := rfl
  rw [hstate, hevent, Event.apply, if_pos hbegun, hstore]
  dsimp only
  rw [RunStore.get_change, if_pos rfl, RunStore.write_runs]

/-- The end of the work changes the record of its run, and nothing awaits it after. -/
theorem Ends.get {t : Nat} {id : String} {ending : Ending} (h : run.Ends t id ending) :
    (run.state (t + 1)).store.runs.get id = ((run.state t).store.runs.get id).map ending.next ∧
      (run.state (t + 1)).awaiting.get id = none := by
  obtain ⟨hawaiting, now, later, hevent⟩ := h
  obtain ⟨action, haction⟩ := Option.isSome_iff_exists.mp hawaiting
  have hstate : run.state (t + 1) = (run.event t).apply (run.state t) := rfl
  rw [hstate, hevent, Event.apply, haction]
  dsimp only
  exact ⟨by rw [RunStore.get_settle, if_pos rfl], OrderedMap.get_delete_self _⟩

/-- **What one event does to a record** of a run that began: it stands or is forgotten, a
callback of the run changes it, or the end of its work does. -/
theorem record_step (hunique : run.UniqueIds) {t : Nat} {id : String}
    (h : id ∈ (run.state t).begun) :
    (run.state (t + 1)).store.runs.get id = (run.state t).store.runs.get id ∨
    (run.state (t + 1)).store.runs.get id = none ∨
    (∃ c, run.Reports t id c ∧
      (run.state (t + 1)).store.runs.get id = ((run.state t).store.runs.get id).map c.next) ∨
    ∃ ending, run.Ends t id ending ∧
      (run.state (t + 1)).store.runs.get id =
        ((run.state t).store.runs.get id).map ending.next := by
  have hstep := run.step t
  have hnot := hunique.not_starts h
  generalize he : run.event t = e at hstep
  generalize hs : run.state (t + 1) = p' at hstep ⊢
  cases hstep with
  | @start request uuid now store idle opened runs bounded =>
    have hid : id ≠ uuid := by
      rintro rfl
      exact hnot ⟨⟨request, now, he⟩, idle⟩
    rw [runs, if_neg hid]
    -- a new run makes room, and the forgotten record may be this one
    rcases (run.state t).store.forget_forgets.kept id with hkept | ⟨hnone, -⟩
    · exact .inl hkept
    · exact .inr (.inl hnone)
  | @callback id' c now line begun recorded =>
    by_cases hid : id = id'
    · subst hid
      refine .inr (.inr (.inl ⟨c, ⟨h, now, _, he, recorded⟩, ?_⟩))
      rw [RunStore.get_change, if_pos rfl, RunStore.write_runs]
    · left
      rw [RunStore.get_change, if_neg hid, RunStore.write_runs]
  | @ends id' ending now later action awaiting =>
    by_cases hid : id = id'
    · subst hid
      refine .inr (.inr (.inr ⟨ending, ⟨by simp [awaiting], now, later, he⟩, ?_⟩))
      rw [RunStore.get_settle, if_pos rfl]
    · left
      rw [RunStore.get_settle, if_neg hid]
  | idle => exact .inl rfl

/-- Only the start of a run makes its work awaited. -/
theorem awaiting_step (hunique : run.UniqueIds) {t : Nat} {id : String}
    (h : id ∈ (run.state t).begun) (hnone : (run.state t).awaiting.get id = none) :
    (run.state (t + 1)).awaiting.get id = none := by
  have hstep := run.step t
  have hnot := hunique.not_starts h
  generalize he : run.event t = e at hstep
  generalize hs : run.state (t + 1) = p' at hstep ⊢
  cases hstep with
  | @start request uuid now store idle opened runs bounded =>
    have hid : id ≠ uuid := by
      rintro rfl
      exact hnot ⟨⟨request, now, he⟩, idle⟩
    rwa [OrderedMap.get_set_of_ne _ _ hid]
  | callback => exact hnone
  | @ends id' ending now later action awaiting =>
    by_cases hid : id = id'
    · rw [hid]
      exact OrderedMap.get_delete_self _
    · rwa [OrderedMap.get_delete_of_ne _ hid]
  | idle => exact hnone

/-- **A run that ended stays as it ended**, and its work does not end again. -/
theorem Ends.final (hunique : run.UniqueIds) {t : Nat} {id : String} {ending : Ending}
    (h : run.Ends t id ending) {u : Nat} (htu : t < u) :
    (∀ r, (run.state u).store.runs.get id = some r → r.stage = ending.stage) ∧
      (run.state u).awaiting.get id = none := by
  have hbegun : id ∈ (run.state t).begun := by
    obtain ⟨r, hr, -⟩ := ((run.consistent t).open_iff id).mp
      (((run.consistent t).awaiting_iff id).mp h.1)
    exact (run.consistent t).begun id r hr
  induction u, htu using Nat.le_induction with
  | base =>
    refine ⟨fun r hr => ?_, h.get.2⟩
    rw [h.get.1] at hr
    obtain ⟨old, -, rfl⟩ := Option.map_eq_some_iff.mp hr
    exact Ending.next_stage ending old
  | succ u htu ih =>
    have hbegunu := begun_mono (Nat.le_of_lt htu) hbegun
    refine ⟨fun r hr => ?_, awaiting_step hunique hbegunu ih.2⟩
    -- a callback after the end keeps the stage, and a second end has no work to end
    rcases record_step hunique hbegunu with hsame | hnone | ⟨c, -, hc⟩ | ⟨ending', hends, -⟩
    · exact ih.1 r (hsame ▸ hr)
    · rw [hnone] at hr
      cases hr
    · rw [hc] at hr
      obtain ⟨old, hold, rfl⟩ := Option.map_eq_some_iff.mp hr
      rw [Callback.next_stage]
      exact ih.1 old hold
    · have := hends.1
      rw [ih.2] at this
      cases this

/-- **A record keeps what was reported**, until a later report of the kind or the return
of the work takes its place. -/
theorem Reports.held (hunique : run.UniqueIds) {u : Nat} {id : String} {c : Callback}
    (h : run.Reports u id c) {t : Nat} (hut : u < t)
    (hlast : ∀ v c', u < v → v < t → run.Reports v id c' → ¬ c'.Supersedes c) :
    ∀ r, (run.state t).store.runs.get id = some r → r.stage ≠ .finished → c.Held r := by
  induction t, hut using Nat.le_induction with
  | base =>
    intro r hr _
    rw [h.get] at hr
    obtain ⟨old, -, rfl⟩ := Option.map_eq_some_iff.mp hr
    exact c.held_next old
  | succ t hut ih =>
    have hbegun := begun_mono (Nat.le_of_lt hut) h.1
    have ih := ih fun v c' huv hvt => hlast v c' huv (Nat.lt_succ_of_lt hvt)
    intro r hr hstage
    rcases record_step hunique hbegun with hsame | hnone | ⟨c', hreports, hc⟩ | ⟨ending, hends, he⟩
    · exact ih r (hsame ▸ hr) hstage
    · rw [hnone] at hr
      cases hr
    · rw [hc] at hr
      obtain ⟨old, hold, rfl⟩ := Option.map_eq_some_iff.mp hr
      rw [Callback.next_stage] at hstage
      exact (ih old hold hstage).next (hlast t c' hut (Nat.lt_succ_self t) hreports)
    · rw [he] at hr
      obtain ⟨old, hold, rfl⟩ := Option.map_eq_some_iff.mp hr
      cases ending with
      | returned outcome => exact absurd rfl hstage
      | threw cause =>
        -- a work that ends was running
        obtain ⟨r, hr, hrunning⟩ := ((run.consistent t).open_iff id).mp
          (((run.consistent t).awaiting_iff id).mp hends.1)
        obtain rfl := Option.some.inj (hold.symm.trans hr)
        exact (ih old hold (by rw [hrunning]; exact nofun)).threw cause

theorem reportedStep_of_not_begun {e : Event} {id : String} {p : Process} (h : id ∉ p.begun) :
    e.reportedStep id p = [] := by
  unfold Event.reportedStep
  split
  · rw [if_neg fun hand => h hand.2]
  · rfl

/-- An event that reports no step of a run. -/
theorem reportedStep_of_not_reports {t : Nat} {id : String} (h : id ∈ (run.state t).begun)
    (hnot : ¬ ∃ text, run.Reports t id (.step text)) :
    (run.event t).reportedStep id (run.state t) = [] := by
  unfold Event.reportedStep
  split
  · rename_i id' text now hevent
    refine if_neg ?_
    rintro ⟨rfl, -⟩
    exact hnot ⟨text, h, now, _, hevent, rfl⟩
  · rfl

/-- A step keeps the steps of a record, unless it reports one. -/
theorem steps_next {t : Nat} {id : String} {c : Callback} (h : run.Reports t id c)
    (hnot : ¬ ∃ text, run.Reports t id (.step text)) (r : Run) : (c.next r).steps = r.steps := by
  cases c with
  | step text => exact absurd ⟨text, h⟩ hnot
  | proof summary => rfl
  | window reading => rfl
  | submission accepted => rfl

/-- The record of a run that begins at this instant. -/
theorem get_of_not_begun {t : Nat} {id : String} (h : id ∉ (run.state t).begun) {r : Run}
    (hr : (run.state (t + 1)).store.runs.get id = some r) : r.steps = [] := by
  have hbegun := (run.consistent (t + 1)).begun id r hr
  have hconsistent := run.consistent t
  have hstep := run.step t
  generalize run.event t = e at hstep
  generalize run.state (t + 1) = p' at hstep hbegun hr
  cases hstep with
  | start idle opened runs bounded =>
    rw [runs] at hr
    split at hr
    · rw [← Option.some.inj hr]
      rfl
    · exact absurd (hconsistent.begun id r (get_of_get_forget hr)) h
  | callback => exact absurd hbegun h
  | ends => exact absurd hbegun h
  | idle => exact absurd hbegun h

/-- **The steps of a record are the steps that its run reported, in order.** -/
theorem steps_eq (hunique : run.UniqueIds) (t : Nat) (id : String) :
    (id ∉ (run.state t).begun → run.stepsBefore id t = []) ∧
      ∀ r, (run.state t).store.runs.get id = some r → r.steps = run.stepsBefore id t := by
  induction t with
  | zero =>
    have hinitial : run.state 0 = .initial := run.first_start
    refine ⟨fun _ => rfl, fun r hr => ?_⟩
    rw [hinitial] at hr
    cases hr
  | succ t ih =>
    obtain ⟨ihnone, ihsome⟩ := ih
    refine ⟨fun h => ?_, fun r hr => ?_⟩
    · have hnot : id ∉ (run.state t).begun := fun hid => h (begun_succ hid)
      rw [stepsBefore, ihnone hnot, reportedStep_of_not_begun hnot]
      rfl
    · by_cases hbegun : id ∈ (run.state t).begun
      -- a step is appended by a report of a step, and by nothing else
      · by_cases hreports : ∃ text, run.Reports t id (.step text)
        · obtain ⟨text, hreports⟩ := hreports
          rw [hreports.get] at hr
          obtain ⟨old, hold, rfl⟩ := Option.map_eq_some_iff.mp hr
          obtain ⟨-, now, store, hevent, -⟩ := hreports
          rw [stepsBefore, ← ihsome old hold, hevent, Event.reportedStep, if_pos ⟨rfl, hbegun⟩]
          rfl
        · rw [stepsBefore, reportedStep_of_not_reports hbegun hreports, List.append_nil]
          rcases record_step hunique hbegun with hsame | hnone | ⟨c, hc, hget⟩ | ⟨ending, -, hget⟩
          · exact ihsome r (hsame ▸ hr)
          · rw [hnone] at hr
            cases hr
          · rw [hget] at hr
            obtain ⟨old, hold, rfl⟩ := Option.map_eq_some_iff.mp hr
            rw [steps_next hc hreports, ihsome old hold]
          · rw [hget] at hr
            obtain ⟨old, hold, rfl⟩ := Option.map_eq_some_iff.mp hr
            rw [← ihsome old hold]
            cases ending <;> rfl
      · rw [stepsBefore, ihnone hbegun, reportedStep_of_not_begun hbegun,
          get_of_not_begun hbegun hr]
        rfl

variable (run)

/-- A running run is not dropped. -/
theorem running_stands {t : Nat} {id : String} {r : Run}
    (hr : (run.state t).store.runs.get id = some r) (hrunning : r.stage = .running) :
    ((run.state (t + 1)).store.runs.get id).isSome := by
  have hopen := ((run.consistent t).open_iff id).mpr ⟨r, hr, hrunning⟩
  have hstep := run.step t
  generalize run.event t = e at hstep
  generalize run.state (t + 1) = p' at hstep ⊢
  cases hstep with
  -- a run starts only when none is open
  | start idle =>
    rw [idle] at hopen
    cases hopen
  | callback =>
    rw [RunStore.get_change, RunStore.write_runs]
    split
    · rename_i hid
      rw [← hid, hr]
      rfl
    · rw [hr]
      rfl
  | ends =>
    rw [RunStore.get_settle]
    split
    · rename_i hid
      rw [← hid, hr]
      rfl
    · rw [hr]
      rfl
  | idle => rw [hr]; rfl

/-- **`startOrJoin` at a reachable store.**  It starts a run iff none is open, joins the
open one otherwise, and never finds the record lost. -/
theorem startOrJoin_law (t : Nat) (request : RunRequest) (uuid : String) (now : Int) :
    ∃ result store', (run.state t).store.startOrJoin request uuid now = .ok (result, store') ∧
      (result.started = true ↔ (run.state t).store.openRun = none) ∧
      ((run.state t).store.openRun = none → result.run = RunStore.newRun request uuid ∧
        store'.openRun = some result.run) ∧
      ∀ r, (run.state t).store.openRun = some r →
        result = ⟨r, false⟩ ∧ store' = (run.state t).store := by
  cases hopen : (run.state t).store.openRunId with
  | none =>
    obtain ⟨store', hstart, hopened, hruns, -⟩ :=
      (run.state t).store.startOrJoin_of_none hopen request uuid now
    have hnone : (run.state t).store.openRun = none := by rw [RunStore.openRun, hopen]
    refine ⟨_, store', hstart, by simp [hnone], fun _ => ⟨rfl, ?_⟩, fun r hr => ?_⟩
    · rw [RunStore.openRun, hopened]
      dsimp only
      rw [hruns, if_pos rfl]
    · rw [hnone] at hr
      cases hr
  | some id =>
    obtain ⟨r, hr, -⟩ := ((run.consistent t).open_iff id).mp hopen
    have hsome : (run.state t).store.openRun = some r := by
      rw [RunStore.openRun, hopen]
      exact hr
    refine ⟨_, _, (run.state t).store.startOrJoin_of_some hopen hr request uuid now,
      by simp [hsome], fun hnone => ?_, fun r' hr' => ?_⟩
    · rw [hsome] at hnone
      cases hnone
    · obtain rfl := Option.some.inj (hsome.symm.trans hr')
      exact ⟨rfl, rfl⟩

/-- **The run store over the life of a process.**  The open identity names the one running
record; a submission starts a run iff none is open; at most twenty runs are remembered and
none that runs is dropped.  With identities given once, the end of a work decides the
stage of its run for good, and a failed run keeps what was reported: all steps in order,
and the last proof, reading, and submission. -/
theorem run_store_law :
    (∀ t id, (run.state t).store.openRunId = some id ↔
      ∃ r, (run.state t).store.get id = some r ∧ r.stage = .running) ∧
    (∀ t id id' r r', (run.state t).store.get id = some r → r.stage = .running →
      (run.state t).store.get id' = some r' → r'.stage = .running → id = id') ∧
    (∀ t request uuid now, ∃ result store',
      (run.state t).store.startOrJoin request uuid now = .ok (result, store') ∧
      (result.started = true ↔ (run.state t).store.openRun = none) ∧
      ((run.state t).store.openRun = none → result.run = RunStore.newRun request uuid ∧
        store'.openRun = some result.run) ∧
      ∀ r, (run.state t).store.openRun = some r →
        result = ⟨r, false⟩ ∧ store' = (run.state t).store) ∧
    (∀ t, (run.state t).store.runs.size ≤ 20) ∧
    (∀ t id r, (run.state t).store.get id = some r → r.stage = .running →
      ((run.state (t + 1)).store.get id).isSome) ∧
    (run.UniqueIds → ∀ t id ending, run.Ends t id ending →
      (∃ r, (run.state t).store.get id = some r ∧ r.stage = .running ∧
        (run.state (t + 1)).store.get id = some (ending.next r)) ∧
      ending.stage ≠ .running ∧
      ∀ u, t < u → (∀ r, (run.state u).store.get id = some r → r.stage = ending.stage) ∧
        ∀ ending', ¬ run.Ends u id ending') ∧
    (run.UniqueIds → ∀ t id r, (run.state t).store.get id = some r → r.stage = .failed →
      r.steps = run.stepsBefore id t ∧
      ∀ u < t, ∀ c, run.Reports u id c →
        (∀ v c', u < v → v < t → run.Reports v id c' → ¬ c'.Supersedes c) → c.Held r) := by
  refine ⟨fun t => (run.consistent t).open_iff, fun t id id' r r' hr hrunning hr' hrunning' => ?_,
    run.startOrJoin_law, fun t => (run.consistent t).bounded,
    fun t id r hr hrunning => run.running_stands hr hrunning,
    fun hunique t id ending hends => ⟨?_, by cases ending <;> exact nofun, fun u htu => ?_⟩,
    fun hunique t id r hr hfailed => ⟨(steps_eq hunique t id).2 r hr, ?_⟩⟩
  · have hopen := ((run.consistent t).open_iff id).mpr ⟨r, hr, hrunning⟩
    have hopen' := ((run.consistent t).open_iff id').mpr ⟨r', hr', hrunning'⟩
    exact Option.some.inj (hopen.symm.trans hopen')
  · obtain ⟨r, hr, hrunning⟩ := ((run.consistent t).open_iff id).mp
      (((run.consistent t).awaiting_iff id).mp hends.1)
    refine ⟨r, hr, hrunning, hends.get.1.trans ?_⟩
    rw [hr, Option.map_some]
  · obtain ⟨hstage, hnone⟩ := hends.final hunique htu
    refine ⟨hstage, fun ending' hends' => ?_⟩
    have hsome := hends'.1
    rw [hnone] at hsome
    cases hsome
  · intro u hut c hreports hlast
    exact hreports.held hunique hut hlast r hr (by rw [hfailed]; exact nofun)

end DashboardRun
end ZkPoR.Dashboard
