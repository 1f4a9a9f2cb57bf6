import ZkPoR.InsertionMap
import ZkPoR.SdkInclusion

/-! # The run store of the dashboard

The store of `dashboard/src/runs.ts`: the runs of one process, the time at which each
one began, and the identity of the open one.  The functions are those of the source.
What the source hands out as four callbacks is `Callback`, and what `perform` does when the
work has ended is `settle`: the record of the end, and the `finally` after it.

The log function does not throw.  `Date.now()` and `randomUUID()` are arguments.
-/
namespace ZkPoR.Dashboard
open InsertionMap

/-! ## Records -/

inductive RunAction
  | prove
  | attest
deriving DecidableEq

inductive RunStage
  | running
  | finished
  | failed
deriving DecidableEq

/-- The text of an action in the log. -/
def RunAction.text : RunAction → String
  | prove => "prove"
  | attest => "attest"

structure ProofSummary where
  proofBytes : Int
  finalRoot : Int
  totalLiabilities : Int
  contextHash : Int
deriving DecidableEq

structure Submission where
  attestationId : Int
  ledger : Int
  transactionHash : String
  registry : String
deriving DecidableEq

structure WindowAtEnd where
  currentLedger : Int
  stillOpen : Bool
deriving DecidableEq

/-- What the work of a run produced. -/
structure RunOutcome where
  proof : ProofSummary
  submission : Option Submission
  window : Option WindowAtEnd
  packages : Option String
  packageFilesCounted : Option Int
deriving DecidableEq

/-- One run, as a page shows it. -/
structure Run where
  id : String
  action : RunAction
  asset : String
  snapshotLedger : Int
  stage : RunStage
  steps : List String
  proof : Option ProofSummary
  submission : Option Submission
  window : Option WindowAtEnd
  packages : Option String
  failure : Option String
deriving DecidableEq

structure StartResult where
  run : Run
  started : Bool
deriving DecidableEq

/-- What a caller states about a run, the work apart. -/
structure RunRequest where
  action : RunAction
  asset : String
  snapshotLedger : Int
deriving DecidableEq

/-- The lines that the store writes. -/
inductive LogEvent
  | runStep (run step : String) (ms : Int)
  | proofFinished (run : String) (proofBytes : Int)
      (finalRoot totalLiabilities contextHash : String) (ms : Int)
  | windowRead (run : String) (currentLedger : Int) (stillOpen : Bool)
  | attestationSubmitted (run registry : String) (ledger : Int) (transaction : String) (ms : Int)
  | packagesWritten (run directory : String) (filesCountedHere : Option Int) (ms : Int)
  | runFinished (run action stage : String) (ms : Int)
  | runFailed (run error : String) (ms : Int)
deriving DecidableEq

/-- The runs that one process remembers. -/
def MAX_REMEMBERED_RUNS : Nat := 20

/-- The runs of one process, and the lines that it logged. -/
structure RunStore where
  runs : OrderedMap String Run
  started : OrderedMap String Int
  openRunId : Option String
  log : List LogEvent

/-- What the work calls while it runs. -/
inductive Callback
  | step (step : String)
  | proof (proof : ProofSummary)
  | window (window : WindowAtEnd)
  | submission (submission : Submission)
deriving DecidableEq

/-- What the work threw. -/
inductive Cause
  | error (message : String)
  | other
deriving DecidableEq

/-- How the work ended. -/
inductive Ending
  | returned (outcome : RunOutcome)
  | threw (cause : Cause)
deriving DecidableEq

/-- The stage that an end leads to. -/
def Ending.stage : Ending → RunStage
  | returned _ => .finished
  | threw _ => .failed

/-- The reason that a failed run names. -/
def Cause.failure : Cause → String
  | error message => message
  | other => "the run failed for a reason it cannot describe"

/-! ## The functions -/

namespace RunStore

def empty : RunStore := ⟨.empty, .empty, none, []⟩

/-- The open run, when one is open. -/
def openRun (store : RunStore) : Option Run :=
  match store.openRunId with
  | none => none
  | some id => store.runs.get id

/-- One run by its identity. -/
def get (store : RunStore) (id : String) : Option Run := store.runs.get id

/-- Writes one line. -/
def write (store : RunStore) (event : LogEvent) : RunStore :=
  { store with log := store.log ++ [event] }

/-- The milliseconds since this run began. -/
def elapsed (store : RunStore) (id : String) (now : Int) : Int :=
  match store.started.get id with
  | none => 0
  | some started => now - started

def change (store : RunStore) (id : String) (next : Run → Run) : RunStore :=
  match store.runs.get id with
  | none => store
  | some run => { store with runs := store.runs.set id (next run) }

/-- The loop of `forget`, with a bound on its iterations. -/
def forgetUpTo : Nat → RunStore → RunStore
  | 0, store => store
  | n + 1, store =>
    if store.runs.size < MAX_REMEMBERED_RUNS then store
    else
      match store.runs.keys.find? fun id => some id ≠ store.openRunId with
      | none => store
      | some oldest =>
        forgetUpTo n
          { store with
            runs := store.runs.delete oldest
            started := store.started.delete oldest }

/-- Drops the oldest runs that are not open, when the store is full.  Every iteration
drops one run, so the count of the runs bounds them. -/
def forget (store : RunStore) : RunStore := forgetUpTo store.runs.size store

/-- The record of a run that begins. -/
def newRun (request : RunRequest) (id : String) : Run :=
  { id
    action := request.action
    asset := request.asset
    snapshotLedger := request.snapshotLedger
    stage := .running
    packages := none
    steps := []
    proof := none
    submission := none
    window := none
    failure := none }

/-- Starts a run, or joins the run that is already open. -/
def startOrJoin (store : RunStore) (request : RunRequest) (randomUUID : String) (now : Int) :
    Except String (StartResult × RunStore) :=
  match store.openRunId with
  | some openId =>
    match store.runs.get openId with
    | none => .error "this process lost the record of the run that is open"
    | some already => .ok (⟨already, false⟩, store)
  | none =>
    let run := newRun request randomUUID
    let store := store.forget
    .ok (⟨run, true⟩,
      { store with
        runs := store.runs.set run.id run
        started := store.started.set run.id now
        openRunId := some run.id })

/-- The text of a proof in the log, or the error of a value that is no field element. -/
def proofLine (store : RunStore) (id : String) (proof : ProofSummary) (now : Int) :
    Except String LogEvent := do
  let finalRoot ← Sdk.toHex proof.finalRoot
  let contextHash ← Sdk.toHex proof.contextHash
  return .proofFinished id proof.proofBytes finalRoot (toString proof.totalLiabilities) contextHash
    (store.elapsed id now)

/-- One call of a callback.  An error goes to the work, and nothing was recorded. -/
def callback (store : RunStore) (id : String) (now : Int) : Callback → Except String RunStore
  | .step step =>
    .ok ((store.write (.runStep id step (store.elapsed id now))).change id fun run =>
      { run with steps := run.steps ++ [step] })
  | .proof proof => do
    let line ← store.proofLine id proof now
    return (store.write line).change id fun run => { run with proof := some proof }
  | .window window =>
    .ok ((store.write (.windowRead id window.currentLedger window.stillOpen)).change id fun run =>
      { run with window := some window })
  | .submission submission =>
    .ok ((store.write (.attestationSubmitted id submission.registry submission.ledger
      submission.transactionHash (store.elapsed id now))).change id fun run =>
        { run with submission := some submission })

/-- The line about the packages, for a run that wrote them. -/
def writePackages (store : RunStore) (id : String) (outcome : RunOutcome) (now : Int) : RunStore :=
  match outcome.packages with
  | none => store
  | some directory =>
    store.write (.packagesWritten id directory outcome.packageFilesCounted (store.elapsed id now))

/-- After the work returned. -/
def finish (store : RunStore) (id : String) (action : RunAction) (outcome : RunOutcome)
    (now later : Int) : RunStore :=
  let store := store.writePackages id outcome now
  let store := store.change id fun run =>
    { run with
      stage := .finished
      proof := some outcome.proof
      submission := outcome.submission
      window := outcome.window
      packages := outcome.packages }
  store.write (.runFinished id action.text "finished" (store.elapsed id later))

/-- After the work threw.  The record keeps what the work recorded. -/
def fail (store : RunStore) (id : String) (cause : Cause) (now : Int) : RunStore :=
  let store := store.change id fun run =>
    { run with stage := .failed, failure := some cause.failure }
  store.write (.runFailed id cause.failure (store.elapsed id now))

/-- The `finally` of `perform`. -/
def close (store : RunStore) (id : String) : RunStore :=
  if store.openRunId = some id then { store with openRunId := none } else store

/-- What `perform` does after the work ended. -/
def settle (store : RunStore) (id : String) (action : RunAction) (now later : Int) :
    Ending → RunStore
  | .returned outcome => (store.finish id action outcome now later).close id
  | .threw cause => (store.fail id cause now).close id

end RunStore

/-! ## What one call does -/

/-- The change of a record by a callback. -/
def Callback.next : Callback → Run → Run
  | .step text, run => { run with steps := run.steps ++ [text] }
  | .proof summary, run => { run with proof := some summary }
  | .window reading, run => { run with window := some reading }
  | .submission accepted, run => { run with submission := some accepted }

/-- The change of a record by the end of the work. -/
def Ending.next : Ending → Run → Run
  | returned outcome, run =>
    { run with
      stage := .finished
      proof := some outcome.proof
      submission := outcome.submission
      window := outcome.window
      packages := outcome.packages }
  | threw cause, run => { run with stage := .failed, failure := some cause.failure }

@[simp] theorem Callback.next_stage (c : Callback) (run : Run) : (c.next run).stage = run.stage := by
  cases c <;> rfl

@[simp] theorem Callback.next_id (c : Callback) (run : Run) : (c.next run).id = run.id := by
  cases c <;> rfl

@[simp] theorem Ending.next_stage (e : Ending) (run : Run) : (e.next run).stage = e.stage := by
  cases e <;> rfl

@[simp] theorem Ending.next_id (e : Ending) (run : Run) : (e.next run).id = run.id := by
  cases e <;> rfl

namespace RunStore
variable (store : RunStore) {id id' : String}

@[simp] theorem write_runs (event : LogEvent) : (store.write event).runs = store.runs := rfl
@[simp] theorem write_openRunId (event : LogEvent) :
    (store.write event).openRunId = store.openRunId := rfl

@[simp] theorem writePackages_runs (outcome : RunOutcome) (now : Int) :
    (store.writePackages id outcome now).runs = store.runs := by
  unfold writePackages
  split <;> rfl

@[simp] theorem writePackages_openRunId (outcome : RunOutcome) (now : Int) :
    (store.writePackages id outcome now).openRunId = store.openRunId := by
  unfold writePackages
  split <;> rfl

@[simp] theorem close_runs : (store.close id).runs = store.runs := by
  unfold close
  split <;> rfl

theorem close_openRunId :
    (store.close id).openRunId = if store.openRunId = some id then none else store.openRunId := by
  unfold close
  split <;> rfl

@[simp] theorem change_openRunId (next : Run → Run) :
    (store.change id next).openRunId = store.openRunId := by
  unfold change
  split <;> rfl

theorem get_change (next : Run → Run) :
    (store.change id next).runs.get id' =
      if id' = id then (store.runs.get id).map next else store.runs.get id' := by
  unfold change
  by_cases h : id' = id
  · subst h
    cases hget : store.runs.get id' <;> simp [hget]
  · cases hget : store.runs.get id <;> simp [h, OrderedMap.get_set_of_ne]

@[simp] theorem size_change (next : Run → Run) :
    (store.change id next).runs.size = store.runs.size := by
  unfold change
  split
  · rfl
  · rename_i run hrun
    exact store.runs.size_set_of_mem _ (store.runs.mem_keys_of_get hrun)

/-- **What a callback does**: one line in the log, and one change of its own record. -/
theorem callback_eq_ok {now : Int} {c : Callback} {store' : RunStore}
    (h : store.callback id now c = .ok store') :
    ∃ line, store' = (store.write line).change id c.next := by
  cases c with
  | step step => exact ⟨_, (Except.ok.inj h).symm⟩
  | proof proof =>
    rw [callback] at h
    cases hline : store.proofLine id proof now with
    | error e =>
      rw [hline] at h
      cases h
    | ok line =>
      rw [hline] at h
      exact ⟨line, (Except.ok.inj h).symm⟩
  | window window => exact ⟨_, (Except.ok.inj h).symm⟩
  | submission submission => exact ⟨_, (Except.ok.inj h).symm⟩

/-- **What the end of the work does** to the records. -/
theorem get_settle (action : RunAction) (now later : Int) (ending : Ending) :
    (store.settle id action now later ending).runs.get id' =
      if id' = id then (store.runs.get id).map ending.next else store.runs.get id' := by
  cases ending with
  | returned outcome =>
    rw [settle, close_runs, finish, write_runs, get_change, writePackages_runs]
    rfl
  | threw cause =>
    rw [settle, close_runs, fail, write_runs, get_change]
    rfl

theorem settle_openRunId (action : RunAction) (now later : Int) (ending : Ending) :
    (store.settle id action now later ending).openRunId =
      if store.openRunId = some id then none else store.openRunId := by
  cases ending with
  | returned outcome =>
    rw [settle, close_openRunId, finish, write_openRunId, change_openRunId, writePackages_openRunId]
  | threw cause => rw [settle, close_openRunId, fail, write_openRunId, change_openRunId]

@[simp] theorem size_settle (action : RunAction) (now later : Int) (ending : Ending) :
    (store.settle id action now later ending).runs.size = store.runs.size := by
  cases ending with
  | returned outcome =>
    rw [settle, close_runs, finish, write_runs, size_change, writePackages_runs]
  | threw cause => rw [settle, close_runs, fail, write_runs, size_change]

/-- What a stretch of the loop of `forget` does: it drops records of runs that are not
open, and nothing else. -/
structure Forgets (store store' : RunStore) : Prop where
  openRunId : store'.openRunId = store.openRunId
  kept : ∀ id, store'.runs.get id = store.runs.get id ∨
    (store'.runs.get id = none ∧ store.openRunId ≠ some id)
  size : store'.runs.size ≤ store.runs.size

theorem forgetUpTo_forgets (n : Nat) : Forgets store (store.forgetUpTo n) := by
  induction n generalizing store with
  | zero => exact ⟨rfl, fun _ => .inl rfl, le_refl _⟩
  | succ n ih =>
    rw [forgetUpTo]
    split
    · exact ⟨rfl, fun _ => .inl rfl, le_refl _⟩
    · split
      · exact ⟨rfl, fun _ => .inl rfl, le_refl _⟩
      · rename_i oldest hfind
        have hopen : store.openRunId ≠ some oldest := by
          have hne := List.find?_some hfind
          exact fun h => of_decide_eq_true hne h.symm
        have hrest := ih { store with
          runs := store.runs.delete oldest
          started := store.started.delete oldest }
        refine ⟨hrest.openRunId, fun id => ?_, hrest.size.trans (store.runs.size_delete_le)⟩
        by_cases hid : id = oldest
        · subst hid
          right
          refine ⟨?_, hopen⟩
          rcases hrest.kept id with hkept | ⟨hnone, -⟩
          · exact hkept.trans (store.runs.get_delete_self)
          · exact hnone
        · rcases hrest.kept id with hkept | hdropped
          · exact .inl (hkept.trans (store.runs.get_delete_of_ne hid))
          · exact .inr hdropped

theorem forget_forgets : Forgets store store.forget := store.forgetUpTo_forgets _

/-- With no open run the loop ends below the limit. -/
theorem size_forgetUpTo_lt (hopen : store.openRunId = none) (n : Nat) (hn : store.runs.size ≤ n) :
    (store.forgetUpTo n).runs.size < MAX_REMEMBERED_RUNS := by
  induction n generalizing store with
  | zero =>
    rw [forgetUpTo]
    exact Nat.lt_of_le_of_lt hn (by decide)
  | succ n ih =>
    rw [forgetUpTo]
    split
    · assumption
    · rename_i hfull
      cases hfind : store.runs.keys.find? fun id => some id ≠ store.openRunId with
      | none =>
        -- every key would be the open run, and the store is not empty
        have hkeys : store.runs.keys = [] := by
          rw [List.find?_eq_none] at hfind
          refine List.eq_nil_iff_forall_not_mem.mpr fun id hid => ?_
          exact hfind id hid (by simp [hopen])
        have hsize : store.runs.size = 0 := by rw [← OrderedMap.length_keys, hkeys]; rfl
        exact absurd (hsize ▸ (by decide : 0 < MAX_REMEMBERED_RUNS)) hfull
      | some oldest =>
        have hlt := store.runs.size_delete_lt (List.mem_of_find?_eq_some hfind)
        refine ih { store with
          runs := store.runs.delete oldest
          started := store.started.delete oldest } hopen ?_
        change (store.runs.delete oldest).size ≤ n
        omega

theorem size_forget_lt (hopen : store.openRunId = none) :
    store.forget.runs.size < MAX_REMEMBERED_RUNS :=
  store.size_forgetUpTo_lt hopen _ (le_refl _)

/-- **What `startOrJoin` does**: it joins the open run, or it starts one. -/
theorem startOrJoin_of_none (h : store.openRunId = none) (request : RunRequest) (uuid : String)
    (now : Int) :
    ∃ store', store.startOrJoin request uuid now = .ok (⟨newRun request uuid, true⟩, store') ∧
      store'.openRunId = some uuid ∧
      (∀ id, store'.runs.get id =
        if id = uuid then some (newRun request uuid) else store.forget.runs.get id) ∧
      store'.runs.size ≤ MAX_REMEMBERED_RUNS := by
  refine ⟨_, by rw [startOrJoin, h], rfl, fun id => ?_, ?_⟩
  · by_cases hid : id = uuid
    · rw [if_pos hid, hid]
      exact store.forget.runs.get_set_self _
    · rw [if_neg hid]
      exact store.forget.runs.get_set_of_ne _ hid
  · exact (store.forget.runs.size_set_le _).trans (store.size_forget_lt h)

theorem startOrJoin_of_some {run : Run} (h : store.openRunId = some id)
    (hrun : store.runs.get id = some run) (request : RunRequest) (uuid : String) (now : Int) :
    store.startOrJoin request uuid now = .ok (⟨run, false⟩, store) := by
  rw [startOrJoin, h]
  dsimp only
  rw [hrun]

end RunStore
end ZkPoR.Dashboard
