import Mathlib.Data.List.Basic
import Mathlib.Data.Prod.Lex
import ZkPoR.TransitionSystem

/-! # The lifecycle of a proving run

`withRunLifecycle` after the lock is taken: the guards are installed, the first
sweep runs, the body runs, and the `finally` block stops the tools, sweeps, drops
the guards and releases the lock.  A signal or the end of the process can come at
any point.

The synchronous work of the process is a list of operations, `todo`, and the
process awaits something when the list is empty.  Only then the runtime calls
listeners, which it does in the order of their registration, and then the list is
the work of these listeners.  A signal that comes during synchronous work waits,
and a signal that has no listener ends the process at once.  A removal counts where
the program asks for it.

The tools and the lock file are those of this process alone, and `report` returns.

`Safe` says of a list of operations what it needs so that every one of its removals
and the ending it leads to are right; each operation only passes the need on, and
`Good` holds at every instant of every run.
-/
namespace ZkPoR
namespace RunLifecycle
open TransitionSystem

section Witnesses

/-- `BATCH_INPUT`. -/
def isBatchInput (name : String) : Bool :=
  let digits := (name.toList.drop 7).take (name.toList.length - 12)
  "Prover_".toList.isPrefixOf name.toList && ".toml".toList.isSuffixOf name.toList &&
    !digits.isEmpty && digits.all Char.isDigit

def inner : String := "circuits/recursion/inner"

def aggregator : String := "circuits/recursion/agg"

def join (directory name : String) : String := directory ++ "/" ++ name

/-- Every path that a run writes and that carries a salt or a witness, against the
repository.  `names` are the entries of the directory of the inner circuit, none
when it does not exist. -/
def witnessPaths (names : List String) : List String :=
  [join inner "Prover.toml", join inner "target", join inner "out",
    join aggregator "Prover.toml", join aggregator "target"] ++
    (names.filter isBatchInput).map (join inner)

end Witnesses

section Model

inductive Signal
  | sigint | sigterm | sighup
  deriving DecidableEq

/-- `GUARDED_SIGNALS`, which both guards name. -/
def guardedSignals : List Signal := [.sigint, .sigterm, .sighup]

/-- An event of the process that the guards listen to. -/
inductive Trigger
  | exit
  | signal (s : Signal)
  deriving DecidableEq

/-- `guardChildren` and `guardWitnesses`. -/
inductive Guard
  | children | witnesses
  deriving DecidableEq

/-- The events in the order in which a guard registers and removes its listeners. -/
def triggers : List Trigger := .exit :: guardedSignals.map .signal

/-- A tool, with what the runtime and the module `children` know of it. -/
structure Tool where
  /-- Undefined when the tool could not be started. -/
  pid : Option Nat
  /-- The runtime reports an exit code or a signal. -/
  reaped : Bool
  /-- The tool is in the set `running`. -/
  watched : Bool
  /-- `SIGKILL` was sent to its group. -/
  signalled : Bool

/-- True when a signal may still go to the group of this tool. -/
def Tool.stillOurs (t : Tool) : Bool := t.pid.isSome && !t.reaped

/-- The tool runs or is not reaped, and no stop has reached it. -/
def Tool.AtLarge (t : Tool) : Prop := t.stillOurs = true ∧ t.signalled = false

/-- What the guards, the lock and the tools of a run share. -/
structure Resources where
  listeners : List (Guard × Trigger)
  tools : List Tool
  /-- The lock file is there and names this process. -/
  lock : Bool
  released : Bool
  /-- The flag of `guardChildren`. -/
  stopped : Bool
  /-- The flag of `guardWitnesses`. -/
  swept : Bool

/-- `process.on`. -/
def Resources.on (r : Resources) (g : Guard) (t : Trigger) : Resources :=
  { r with listeners := r.listeners ++ [(g, t)] }

/-- `process.removeListener`. -/
def Resources.off (r : Resources) (g : Guard) (t : Trigger) : Resources :=
  { r with listeners := r.listeners.erase (g, t) }

/-- The listeners of one event, in the order of their registration. -/
def Resources.listenersOf (r : Resources) (t : Trigger) : List Guard :=
  (r.listeners.filter fun entry => entry.2 = t).map Prod.fst

/-- The groups to which `stopChildrenSync` sends `SIGKILL`. -/
def Resources.signalledBy (r : Resources) : List Nat :=
  (r.tools.filter fun t => t.watched && t.stillOurs).filterMap Tool.pid

/-- `stopChildrenSync`. -/
def Resources.stopChildren (r : Resources) : Resources :=
  { r with tools := r.tools.map fun t =>
      if t.watched then { t with watched := false, signalled := t.signalled || t.stillOurs }
      else t }

/-- `stopOnce` of `guardChildren`. -/
def Resources.stopOnce (r : Resources) : Resources :=
  if r.stopped then r else { r.stopChildren with stopped := true }

/-- The release of the run lock. -/
def Resources.release (r : Resources) : Resources :=
  if r.released then r else { r with released := true, lock := false }

variable (τ ε : Type)

/-- The sweeps of a run: before the body, after it with the result that the caller
will see, and the synchronous one of the guard. -/
inductive Sweep
  | first
  | last (result : Except ε τ)
  | final

/-- A synchronous operation. -/
inductive Op
  | on (g : Guard) (t : Trigger)
  | off (g : Guard) (t : Trigger)
  | stopOnce
  /-- The stop of the `finally` block. -/
  | stopChildren
  | report (step : String)
  | sweepOnce
  /-- `rmSync` of one path. -/
  | remove (path : String)
  /-- `clearWitnesses` up to its first await. -/
  | clear (sweep : Sweep τ ε)
  | release
  /-- `process.kill(process.pid, signal)`. -/
  | raise (s : Signal)
  /-- The process ends after the listeners of its exit. -/
  | finish
  /-- The promise of `withRunLifecycle` settles. -/
  | settle (result : Except ε τ)

/-- What the run awaits when it has no synchronous work. -/
inductive Await
  | start
  /-- A removal of a sweep, with the paths after it. -/
  | sweeping (sweep : Sweep τ ε) (rest : List String)
  | body
  | settled (result : Except ε τ)

/-- What a run does that others can observe. -/
inductive Act
  | remove (sweep : Sweep τ ε) (path : String)
  | kill (pid : Nat)
  | report (step : String)
  | unlock
  | raise (s : Signal)

structure State where
  alive : Bool
  res : Resources
  /-- Signals that came and whose listeners the runtime has not called. -/
  pending : List Signal
  todo : List (Op τ ε)
  awaiting : Await τ ε
  /-- The entries of the directory of the inner circuit. -/
  names : List String
  /-- The newest first. -/
  acts : List (Act τ ε)

variable {τ ε}

/-- The removals of all listeners of one guard. -/
def offs (g : Guard) : List (Op τ ε) := triggers.map (.off g)

/-- The registrations of the two guards, in the order of the calls. -/
def registrations : List (Guard × Trigger) :=
  triggers.map (Prod.mk .children) ++ triggers.map (Prod.mk .witnesses)

/-- The work of one listener. -/
def listenerOps : Trigger → Guard → List (Op τ ε)
  | .exit, .children => [.stopOnce]
  | .signal _, .children => .stopOnce :: offs .children
  | .exit, .witnesses => [.sweepOnce]
  | .signal s, .witnesses => .sweepOnce :: offs .witnesses ++ [.raise s]

/-- The work of the `finally` block up to its sweep. -/
def finallyOps (result : Except ε τ) : List (Op τ ε) :=
  [.stopChildren, .report "removing the witness files", .clear (.last result)]

/-- The work of the `finally` block after its sweep. -/
def leaveOps (result : Except ε τ) : List (Op τ ε) :=
  offs .witnesses ++ offs .children ++ [.release, .settle result]

def State.act (s : State τ ε) (a : Act τ ε) : State τ ε := { s with acts := a :: s.acts }

/-- Ends one sweep: the body begins, or the `finally` block goes on. -/
def State.sweepDone (s : State τ ε) : Sweep τ ε → State τ ε
  | .first => { s with awaiting := .body }
  | .last result => { s with todo := leaveOps result }
  | .final => s

/-- Asks for the next removal of a sweep, or ends it. -/
def State.sweepNext (s : State τ ε) (sweep : Sweep τ ε) : List String → State τ ε
  | path :: rest => { s.act (.remove sweep path) with awaiting := .sweeping sweep rest }
  | [] => s.sweepDone sweep

/-- A removal of a sweep failed.  The `finally` block catches the failure of its own
sweep. -/
def State.sweepFailed (s : State τ ε) (failure : ε) : Sweep τ ε → State τ ε
  | .first => { s with todo := finallyOps (.error failure) }
  | .last result => { s with todo := leaveOps result }
  | .final => s

/-- The stop with the signals it sends. -/
def State.stop (s : State τ ε) : State τ ε :=
  { s with
    res := s.res.stopChildren
    acts := s.res.signalledBy.map .kill ++ s.acts }

/-- What the `finally` block reports when groups are alive after the deadline. -/
def stillRunningReport (pids : List Nat) : String :=
  "these process groups had not ended when the stop gave up: " ++
    ", ".intercalate (pids.map toString)

/-- One synchronous operation, already taken from `todo`.  `groupAlive` are the
groups that have a member when a stop gives up. -/
def Op.exec (groupAlive : Nat → Bool) : Op τ ε → State τ ε → State τ ε
  | .on g t, s => { s with res := s.res.on g t }
  | .off g t, s => { s with res := s.res.off g t }
  | .stopOnce, s =>
    if s.res.stopped then s else { s.stop with res := s.res.stopOnce }
  | .stopChildren, s =>
    match s.res.signalledBy.filter groupAlive with
    | [] => s.stop
    | pids => s.stop.act (.report (stillRunningReport pids))
  | .report step, s => s.act (.report step)
  | .sweepOnce, s =>
    if s.res.swept then s
    else { s with
      res := { s.res with swept := true }
      todo := (witnessPaths s.names).map .remove ++ .release :: s.todo }
  | .remove path, s => s.act (.remove .final path)
  | .clear sweep, s => s.sweepNext sweep (witnessPaths s.names)
  | .release, s =>
    if s.res.lock && !s.res.released then { s.act .unlock with res := s.res.release }
    else { s with res := s.res.release }
  | .raise sig, s =>
    if s.res.listenersOf (.signal sig) = [] then { s.act (.raise sig) with alive := false }
    else { s.act (.raise sig) with pending := s.pending ++ [sig] }
  | .finish, s => { s with alive := false }
  | .settle result, s => { s with awaiting := .settled result }

inductive Event (τ ε : Type)
  /-- The next synchronous operation. -/
  | step (groupAlive : Nat → Bool)
  /-- The awaited removal succeeded, or failed. -/
  | removed (failure : Option ε)
  | bodyEnds (result : Except ε τ)
  /-- The body starts and watches a tool. -/
  | start (pid : Option Nat)
  | reap (tool : Nat)
  /-- A tool that ended, or that could not be started, is forgotten. -/
  | forget (tool : Nat)
  | arrive (s : Signal)
  /-- The runtime calls the listeners of a signal. -/
  | deliver (s : Signal)
  /-- The process exits, by a call or because nothing keeps it running. -/
  | exit
  /-- The tools and the removals change the directory. -/
  | files (names : List String)

def Tool.reap (t : Tool) : Tool := { t with reaped := true }

def Tool.forget (t : Tool) : Tool := if t.stillOurs then t else { t with watched := false }

/-- The process awaits something, and nothing synchronous is left. -/
def State.waits (s : State τ ε) : Bool := s.alive && s.todo.isEmpty

def State.emit (s : State τ ε) (t : Trigger) (after : List (Op τ ε)) : State τ ε :=
  { s with todo := (s.res.listenersOf t).flatMap (listenerOps t) ++ after }

def State.withTools (s : State τ ε) (tools : List Tool) : State τ ε :=
  { s with res := { s.res with tools } }

/-- The state after an event.  An event that cannot happen changes nothing. -/
def Event.apply : Event τ ε → State τ ε → State τ ε
  | .step groupAlive, s =>
    match s.todo with
    | op :: rest => if s.alive then op.exec groupAlive { s with todo := rest } else s
    | [] => s
  | .removed failure, s =>
    if s.waits then
      match s.awaiting, failure with
      | .sweeping sweep rest, none => s.sweepNext sweep rest
      | .sweeping sweep _, some e => s.sweepFailed e sweep
      | _, _ => s
    else s
  | .bodyEnds result, s =>
    if s.waits then
      match s.awaiting with
      | .body => { s with todo := finallyOps result }
      | _ => s
    else s
  | .start pid, s =>
    if s.waits then
      match s.awaiting with
      | .body => s.withTools (s.res.tools ++ [⟨pid, false, true, false⟩])
      | _ => s
    else s
  | .reap i, s => if s.waits then s.withTools (s.res.tools.modify i Tool.reap) else s
  | .forget i, s => if s.waits then s.withTools (s.res.tools.modify i Tool.forget) else s
  | .arrive sig, s =>
    if s.alive then
      if s.res.listenersOf (.signal sig) = [] then { s with alive := false }
      else { s with pending := s.pending ++ [sig] }
    else s
  | .deliver sig, s =>
    if s.waits ∧ sig ∈ s.pending then
      { s.emit (.signal sig) [] with pending := s.pending.erase sig }
    else s
  | .exit, s => if s.waits then s.emit .exit [.finish] else s
  | .files names, s => { s with names }

/-- Right after `takeRunLock` returned: no listener, no tool, the lock file is there. -/
def Initial (s : State τ ε) : Prop :=
  s.alive = true ∧ s.res = ⟨[], [], true, false, false, false⟩ ∧ s.pending = [] ∧
    s.todo = registrations.map (fun entry => .on entry.1 entry.2) ++ [.clear .first] ∧
    s.awaiting = .start ∧ s.acts = []

/-- `withRunLifecycle` with a result of type `τ` and failures of type `ε`. -/
def lifecycle (τ ε : Type) : Machine (State τ ε) (Event τ ε) where
  start := Initial
  apply := Event.apply

theorem waits_iff {s : State τ ε} : s.waits = true ↔ s.alive = true ∧ s.todo = [] := by
  simp [State.waits]

/-- **What an event does**, with what let it happen. -/
inductive Happens (s : State τ ε) : Event τ ε → State τ ε → Prop
  | exec {op : Op τ ε} {rest : List (Op τ ε)} (alive : s.alive = true) (todo : s.todo = op :: rest)
      (groupAlive : Nat → Bool) :
      Happens s (.step groupAlive) (op.exec groupAlive { s with todo := rest })
  | sweepNext {sweep : Sweep τ ε} {rest : List String} (waits : s.waits = true)
      (awaiting : s.awaiting = .sweeping sweep rest) :
      Happens s (.removed none) (s.sweepNext sweep rest)
  | sweepFailed {sweep : Sweep τ ε} {rest : List String} (waits : s.waits = true)
      (awaiting : s.awaiting = .sweeping sweep rest) (failure : ε) :
      Happens s (.removed (some failure)) (s.sweepFailed failure sweep)
  | bodyEnds (waits : s.waits = true) (awaiting : s.awaiting = .body) (result : Except ε τ) :
      Happens s (.bodyEnds result) { s with todo := finallyOps result }
  | start (waits : s.waits = true) (awaiting : s.awaiting = .body) (pid : Option Nat) :
      Happens s (.start pid) (s.withTools (s.res.tools ++ [⟨pid, false, true, false⟩]))
  | reap (waits : s.waits = true) (i : Nat) :
      Happens s (.reap i) (s.withTools (s.res.tools.modify i Tool.reap))
  | forget (waits : s.waits = true) (i : Nat) :
      Happens s (.forget i) (s.withTools (s.res.tools.modify i Tool.forget))
  | die (alive : s.alive = true) (sig : Signal) :
      Happens s (.arrive sig) { s with alive := false }
  | queue (alive : s.alive = true) (sig : Signal) :
      Happens s (.arrive sig) { s with pending := s.pending ++ [sig] }
  | deliver {sig : Signal} (waits : s.waits = true) (pending : sig ∈ s.pending) :
      Happens s (.deliver sig)
        { s.emit (.signal sig) [] with pending := s.pending.erase sig }
  | exit (waits : s.waits = true) : Happens s .exit (s.emit .exit [.finish])
  | files (names : List String) : Happens s (.files names) { s with names }
  | idle {e : Event τ ε} : Happens s e s

theorem Event.happens (e : Event τ ε) (s : State τ ε) : Happens s e (e.apply s) := by
  cases e with
  | step groupAlive =>
    cases htodo : s.todo with
    | nil => simpa [apply, htodo] using Happens.idle
    | cons op rest =>
      by_cases halive : s.alive = true
      · simpa [apply, htodo, halive] using Happens.exec halive htodo groupAlive
      · simpa [apply, htodo, halive] using Happens.idle
  | removed failure =>
    simp only [apply]
    split
    · rename_i hwaits
      split
      · exact .sweepNext hwaits ‹_›
      · exact .sweepFailed hwaits ‹_› _
      · exact .idle
    · exact .idle
  | bodyEnds result =>
    simp only [apply]
    split
    · rename_i hwaits
      split
      · exact .bodyEnds hwaits ‹_› result
      · exact .idle
    · exact .idle
  | start pid =>
    simp only [apply]
    split
    · rename_i hwaits
      split
      · exact .start hwaits ‹_› pid
      · exact .idle
    · exact .idle
  | reap i =>
    simp only [apply]
    split
    · exact .reap ‹_› i
    · exact .idle
  | forget i =>
    simp only [apply]
    split
    · exact .forget ‹_› i
    · exact .idle
  | arrive sig =>
    simp only [apply]
    split
    · rename_i halive
      split
      · exact .die halive sig
      · exact .queue halive sig
    · exact .idle
  | deliver sig =>
    simp only [apply]
    split
    · rename_i h
      exact .deliver h.1 h.2
    · exact .idle
  | exit =>
    simp only [apply]
    split
    · exact .exit ‹_›
    · exact .idle
  | files names => exact .files names

end Model

section Safety
variable {τ ε : Type}

/-- Every tool that is not reaped has been sent `SIGKILL`. -/
def Quiet (tools : List Tool) : Prop := ∀ t ∈ tools, ¬ t.AtLarge

/-- A tool at large is in the set that a stop reads. -/
def Tracked (tools : List Tool) : Prop := ∀ t ∈ tools, t.AtLarge → t.watched = true

/-- The guards are installed and have not run, and the lock is held. -/
def Resources.Guarded (r : Resources) : Prop :=
  r.listeners = registrations ∧ r.lock = true ∧ r.released = false ∧ r.stopped = false ∧
    r.swept = false

/-- What a list of operations needs of the resources, from its first operation to the
await or the ending it leads to. -/
def Safe : List (Op τ ε) → Resources → Prop
  | [], _ => False
  | .on g t :: rest, r => Safe rest (r.on g t)
  | .off g t :: rest, r => Safe rest (r.off g t)
  | .stopOnce :: rest, r => Safe rest r.stopOnce
  | .stopChildren :: rest, r => Safe rest r.stopChildren
  | .report _ :: rest, r => Safe rest r
  | .sweepOnce :: rest, r => r.swept = false ∧ r.lock = true ∧ Quiet r.tools ∧
      Safe rest { r with swept := true }.release
  | .remove _ :: rest, r => r.lock = true ∧ Quiet r.tools ∧ Safe rest r
  | .clear .first :: rest, r => rest = [] ∧ r.Guarded ∧ r.tools = []
  | .clear (.last _) :: rest, r => rest = [] ∧ r.Guarded ∧ Quiet r.tools
  | .clear .final :: _, _ => False
  | .release :: rest, r => Safe rest r.release
  | .raise _ :: rest, r => rest = [] ∧ r.listeners = [] ∧ r.lock = false
  | .finish :: rest, r => rest = [] ∧ r.lock = false
  | .settle _ :: rest, r => rest = [] ∧ r.listeners = [] ∧ r.lock = false

/-- What holds while the run awaits something. -/
def AtAwait : Await τ ε → Resources → Prop
  | .start, _ => False
  | .sweeping .first _, r => r.Guarded ∧ r.tools = []
  | .sweeping (.last _) _, r => r.Guarded ∧ Quiet r.tools
  | .sweeping .final _, _ => False
  | .body, r => r.Guarded
  | .settled _, r => r.listeners = [] ∧ r.lock = false

/-- The invariant of a run. -/
structure Good (s : State τ ε) : Prop where
  tracked : Tracked s.res.tools
  lock_eq : s.res.lock = !s.res.released
  awaits : s.alive = true → s.todo = [] → AtAwait s.awaiting s.res
  safe : s.alive = true → s.todo ≠ [] → Safe s.todo s.res

/-- The next operation has what it needs. -/
theorem Good.safe_cons {s : State τ ε} (hs : Good s) (halive : s.alive = true) {op : Op τ ε}
    {rest : List (Op τ ε)} (htodo : s.todo = op :: rest) : Safe (op :: rest) s.res := by
  rw [← htodo]
  exact hs.safe halive (by simp [htodo])

/-- What the run awaits has what it needs. -/
theorem Good.atAwait {s : State τ ε} (hs : Good s) (hwaits : s.waits = true) :
    AtAwait s.awaiting s.res :=
  hs.awaits (waits_iff.mp hwaits).1 (waits_iff.mp hwaits).2

theorem Quiet.of_nil : Quiet [] := by
  intro t ht
  cases ht

/-- After a stop no tool is at large. -/
theorem quiet_stopChildren {r : Resources} (h : Tracked r.tools) : Quiet r.stopChildren.tools := by
  intro after hafter
  obtain ⟨t, ht, rfl⟩ := List.mem_map.mp hafter
  by_cases hw : t.watched = true
  · rintro ⟨hours, hsignalled⟩
    simp only [hw, ite_true, Tool.stillOurs, Bool.or_eq_false_iff] at hours hsignalled
    rw [hours] at hsignalled
    cases hsignalled.2
  · rw [if_neg hw]
    exact fun hlarge => hw (h t ht hlarge)

theorem Quiet.tracked {tools : List Tool} (h : Quiet tools) : Tracked tools :=
  fun t ht hlarge => absurd hlarge (h t ht)

theorem tracked_stopOnce {r : Resources} (h : Tracked r.tools) : Tracked r.stopOnce.tools := by
  unfold Resources.stopOnce
  split
  · exact h
  · exact (quiet_stopChildren h).tracked

theorem tracked_append {tools : List Tool} (h : Tracked tools) (pid : Option Nat) :
    Tracked (tools ++ [⟨pid, false, true, false⟩]) := by
  intro t ht hlarge
  rcases List.mem_append.mp ht with ht | ht
  · exact h t ht hlarge
  · rw [List.mem_singleton.mp ht]

/-- What one step changes of a tool keeps a property of all tools. -/
theorem forall_mem_modify {P : Tool → Prop} {tools : List Tool} (i : Nat) {f : Tool → Tool}
    (h : ∀ t ∈ tools, P t) (hf : ∀ t, P t → P (f t)) : ∀ t ∈ tools.modify i f, P t := by
  intro t ht
  obtain ⟨j, hj, rfl⟩ := List.mem_iff_getElem.mp ht
  rw [List.getElem_modify]
  have hj' : j < tools.length := by simpa using hj
  split
  · exact hf _ (h _ (List.getElem_mem hj'))
  · exact h _ (List.getElem_mem hj')

theorem not_atLarge_reap (t : Tool) : ¬ t.reap.AtLarge := by
  rintro ⟨h, -⟩
  simp [Tool.stillOurs, Tool.reap] at h

theorem atLarge_forget {t : Tool} : t.forget.AtLarge ↔ t.AtLarge := by
  unfold Tool.forget
  split
  · rfl
  · rename_i h
    constructor
    · rintro ⟨hours, -⟩
      exact absurd hours h
    · rintro ⟨hours, -⟩
      exact absurd hours h

theorem watched_forget {t : Tool} (h : t.AtLarge) : t.forget.watched = t.watched := by
  simp [Tool.forget, h.1]

theorem Good.of_safe {s : State τ ε} (htracked : Tracked s.res.tools)
    (hlock : s.res.lock = !s.res.released) (h : Safe s.todo s.res) : Good s where
  tracked := htracked
  lock_eq := hlock
  awaits := by
    intro _ hnil
    rw [hnil] at h
    exact h.elim
  safe := fun _ _ => h

theorem Good.of_await {s : State τ ε} (htracked : Tracked s.res.tools)
    (hlock : s.res.lock = !s.res.released) (hnil : s.todo = [])
    (h : AtAwait s.awaiting s.res) : Good s where
  tracked := htracked
  lock_eq := hlock
  awaits := fun _ _ => h
  safe := fun _ hne => absurd hnil hne

theorem Good.of_dead {s : State τ ε} (htracked : Tracked s.res.tools)
    (hlock : s.res.lock = !s.res.released) (hdead : s.alive = false) : Good s where
  tracked := htracked
  lock_eq := hlock
  awaits := by
    intro halive
    rw [hdead] at halive
    cases halive
  safe := by
    intro halive
    rw [hdead] at halive
    cases halive

theorem release_lock_eq {r : Resources} (h : r.lock = !r.released) :
    r.release.lock = !r.release.released := by
  unfold Resources.release
  split
  · exact h
  · rfl

theorem release_tools (r : Resources) : r.release.tools = r.tools := by
  unfold Resources.release
  split <;> rfl

theorem stopOnce_lock (r : Resources) : r.stopOnce.lock = r.lock := by
  unfold Resources.stopOnce
  split <;> rfl

theorem stopOnce_released (r : Resources) : r.stopOnce.released = r.released := by
  unfold Resources.stopOnce
  split <;> rfl

/-- The removals of the synchronous sweep and the release after them are safe. -/
theorem safe_sweepOnce {rest : List (Op τ ε)} {r : Resources} (hlock : r.lock = true)
    (hquiet : Quiet r.tools) (h : Safe rest r.release) (paths : List String) :
    Safe (paths.map .remove ++ .release :: rest) r := by
  induction paths with
  | nil => exact h
  | cons path paths ih => exact ⟨hlock, hquiet, ih⟩

theorem Resources.Guarded.lock {r : Resources} (h : r.Guarded) : r.lock = true := h.2.1

/-- Both guards listen to every event, that of the tools first. -/
theorem Resources.Guarded.listenersOf {r : Resources} (h : r.Guarded) (t : Trigger) :
    r.listenersOf t = [.children, .witnesses] := by
  rw [Resources.listenersOf, h.1]
  cases t with
  | exit => decide
  | signal sig => cases sig <;> decide

/-- The `finally` block up to its sweep is safe wherever the guards stand. -/
theorem safe_finallyOps {r : Resources} (hguarded : r.Guarded) (htracked : Tracked r.tools)
    (result : Except ε τ) : Safe (finallyOps result) r :=
  ⟨rfl, hguarded, quiet_stopChildren htracked⟩

/-- The `finally` block after its sweep is safe wherever the guards stand. -/
theorem safe_leaveOps {r : Resources} (hguarded : r.Guarded) (result : Except ε τ) :
    Safe (leaveOps result) r := by
  obtain ⟨hlisteners, -, hreleased, -, -⟩ := hguarded
  simp only [leaveOps, offs, triggers, guardedSignals, List.map_cons, List.map_nil,
    List.cons_append, List.nil_append, Safe, Resources.off, Resources.release, hlisteners,
    hreleased, true_and, Bool.false_eq_true, if_false, and_true]
  decide

/-- The listeners of a signal leave no listener behind before they raise it. -/
theorem safe_signal {r : Resources} (hguarded : r.Guarded) (htracked : Tracked r.tools)
    (sig : Signal) :
    Safe ((r.listenersOf (.signal sig)).flatMap (listenerOps (τ := τ) (ε := ε) (.signal sig))) r := by
  rw [hguarded.listenersOf]
  obtain ⟨hlisteners, hlock, hreleased, hstopped, hswept⟩ := hguarded
  have hquiet := quiet_stopChildren htracked
  simp only [List.flatMap_cons, List.flatMap_nil, listenerOps, offs, triggers, guardedSignals,
    List.map_cons, List.map_nil, List.cons_append, List.nil_append, List.append_nil, Safe,
    Resources.off, Resources.release, Resources.stopOnce, hstopped, Bool.false_eq_true, if_false]
  refine ⟨hswept, hlock, hquiet, trivial, ?_⟩
  simp only [Resources.stopChildren, hreleased, hlisteners, Bool.false_eq_true, if_false]
  decide

/-- The listeners of the exit are safe, and nothing but the end comes after them. -/
theorem safe_exit {r : Resources} (hguarded : r.Guarded) (htracked : Tracked r.tools) :
    Safe ((r.listenersOf .exit).flatMap (listenerOps (τ := τ) (ε := ε) .exit) ++ [.finish]) r := by
  rw [hguarded.listenersOf]
  obtain ⟨hlisteners, hlock, hreleased, hstopped, hswept⟩ := hguarded
  have hquiet := quiet_stopChildren htracked
  simp only [List.flatMap_cons, List.flatMap_nil, listenerOps, List.cons_append, List.nil_append,
    List.append_nil, Safe, Resources.stopOnce, hstopped, Bool.false_eq_true, if_false]
  exact ⟨hswept, hlock, hquiet, trivial, by simp [Resources.release, Resources.stopChildren, hreleased]⟩

theorem Good.sweepNext {s : State τ ε} (hnil : s.todo = []) (htracked : Tracked s.res.tools)
    (hlock : s.res.lock = !s.res.released) {sweep : Sweep τ ε} {rest : List String}
    (h : AtAwait (.sweeping sweep rest) s.res) (paths : List String) :
    Good (s.sweepNext sweep paths) := by
  cases paths with
  | cons path paths =>
    refine .of_await htracked hlock hnil ?_
    cases sweep <;> exact h
  | nil =>
    cases sweep with
    | first => exact .of_await htracked hlock hnil h.1
    | last result => exact .of_safe htracked hlock (safe_leaveOps h.1 result)
    | final => exact h.elim

theorem Good.sweepFailed {s : State τ ε} (htracked : Tracked s.res.tools)
    (hlock : s.res.lock = !s.res.released) {sweep : Sweep τ ε} {rest : List String}
    (h : AtAwait (.sweeping sweep rest) s.res) (failure : ε) :
    Good (s.sweepFailed failure sweep) := by
  cases sweep with
  | first => exact .of_safe htracked hlock (safe_finallyOps h.1 htracked (.error failure))
  | last result => exact .of_safe htracked hlock (safe_leaveOps h.1 result)
  | final => exact h.elim

/-- One synchronous operation keeps the invariant: each passes on what the ones after
it need. -/
theorem Good.exec {s : State τ ε} (hs : Good s) (halive : s.alive = true) {op : Op τ ε}
    {rest : List (Op τ ε)} (htodo : s.todo = op :: rest) (groupAlive : Nat → Bool) :
    Good (op.exec groupAlive { s with todo := rest }) := by
  have hsafe := hs.safe_cons halive htodo
  cases op with
  | on g t => exact .of_safe hs.tracked hs.lock_eq hsafe
  | off g t => exact .of_safe hs.tracked hs.lock_eq hsafe
  | stopOnce =>
    by_cases hstopped : s.res.stopped = true
    · simp only [Safe, Resources.stopOnce, hstopped, if_true] at hsafe
      have hgood : Good ({ s with todo := rest } : State τ ε) :=
        .of_safe hs.tracked hs.lock_eq hsafe
      simpa [Op.exec, hstopped] using hgood
    · simp only [Op.exec, hstopped, Bool.false_eq_true, if_false]
      refine .of_safe (tracked_stopOnce hs.tracked) ?_ hsafe
      simpa [stopOnce_lock, stopOnce_released] using hs.lock_eq
  | stopChildren =>
    have hgood : Good ({ s with todo := rest } : State τ ε).stop :=
      .of_safe (quiet_stopChildren hs.tracked).tracked hs.lock_eq hsafe
    simp only [Op.exec]
    split
    · exact hgood
    · exact ⟨hgood.tracked, hgood.lock_eq, hgood.awaits, hgood.safe⟩
  | report step => exact .of_safe hs.tracked hs.lock_eq hsafe
  | sweepOnce =>
    obtain ⟨hswept, hlock, hquiet, hrest⟩ := hsafe
    simp only [Op.exec, hswept, Bool.false_eq_true, if_false]
    exact .of_safe hs.tracked hs.lock_eq
      (safe_sweepOnce (r := { s.res with swept := true }) hlock hquiet hrest _)
  | remove path => exact .of_safe hs.tracked hs.lock_eq hsafe.2.2
  | clear sweep =>
    cases sweep with
    | first =>
      obtain ⟨hrest, h⟩ := hsafe
      have hawait : AtAwait (.sweeping (.first : Sweep τ ε) []) s.res := h
      exact Good.sweepNext (s := { s with todo := rest }) hrest hs.tracked hs.lock_eq hawait
        (witnessPaths s.names)
    | last result =>
      obtain ⟨hrest, h⟩ := hsafe
      have hawait : AtAwait (.sweeping (.last result) []) s.res := h
      exact Good.sweepNext (s := { s with todo := rest }) hrest hs.tracked hs.lock_eq hawait
        (witnessPaths s.names)
    | final => exact hsafe.elim
  | release =>
    simp only [Op.exec]
    have hgood : Good ({ s with todo := rest, res := s.res.release } : State τ ε) :=
      .of_safe ((release_tools s.res).symm ▸ hs.tracked) (release_lock_eq hs.lock_eq) hsafe
    split
    · exact ⟨hgood.tracked, hgood.lock_eq, hgood.awaits, hgood.safe⟩
    · exact hgood
  | raise sig =>
    have hof : s.res.listenersOf (.signal sig) = [] := by simp [Resources.listenersOf, hsafe.2.1]
    simp only [Op.exec, hof, if_true]
    exact .of_dead hs.tracked hs.lock_eq rfl
  | finish => exact .of_dead hs.tracked hs.lock_eq rfl
  | settle result => exact .of_await hs.tracked hs.lock_eq hsafe.1 hsafe.2

/-- Changing what the lists of operations do not need keeps the invariant. -/
theorem Good.of_eq {s s' : State τ ε} (hs : Good s) (hres : s'.res = s.res)
    (htodo : s'.todo = s.todo) (hawaiting : s'.awaiting = s.awaiting)
    (halive : s'.alive = true → s.alive = true) : Good s' where
  tracked := hres ▸ hs.tracked
  lock_eq := by
    rw [hres]
    exact hs.lock_eq
  awaits := by
    intro h hnil
    rw [hres, hawaiting]
    exact hs.awaits (halive h) (htodo ▸ hnil)
  safe := by
    intro h hne
    rw [hres, htodo]
    exact hs.safe (halive h) (htodo ▸ hne)

/-- At an await the tools change without being at large unwatched. -/
theorem Good.withTools {s : State τ ε} (hs : Good s) (hnil : s.todo = []) {tools : List Tool}
    (htracked : Tracked tools) (hquiet : Quiet s.res.tools → Quiet tools)
    (hempty : s.alive = true → ∀ rest, s.awaiting = .sweeping .first rest →
      s.res.tools = [] → tools = []) :
    Good (s.withTools tools) := by
  refine ⟨htracked, hs.lock_eq, ?_, fun _ hne => absurd hnil hne⟩
  intro halive _
  have h := hs.awaits halive hnil
  change AtAwait s.awaiting { s.res with tools }
  cases hawaiting : s.awaiting with
  | start => exact (hawaiting ▸ h).elim
  | sweeping sweep rest =>
    rw [hawaiting] at h
    cases sweep with
    | first => exact ⟨h.1, hempty halive rest hawaiting h.2⟩
    | last result => exact ⟨h.1, hquiet h.2⟩
    | final => exact h.elim
  | body =>
    rw [hawaiting] at h
    exact h
  | settled result =>
    rw [hawaiting] at h
    exact h

/-- The guards stand wherever the run awaits something and has not settled. -/
theorem Good.guarded_of_unsettled {s : State τ ε} (hs : Good s) (hwaits : s.waits = true)
    (hunsettled : ∀ result, s.awaiting ≠ .settled result) : s.res.Guarded := by
  have hawait := hs.atAwait hwaits
  cases hawaiting : s.awaiting with
  | start => exact (hawaiting ▸ hawait).elim
  | sweeping sweep rest =>
    rw [hawaiting] at hawait
    cases sweep with
    | first => exact hawait.1
    | last result => exact hawait.1
    | final => exact hawait.elim
  | body =>
    rw [hawaiting] at hawait
    exact hawait
  | settled result => exact absurd hawaiting (hunsettled result)

/-- Only a settled run awaits something without its guards. -/
theorem Good.left_of_not_guarded {s : State τ ε} (hs : Good s) (hwaits : s.waits = true)
    (h : ¬ s.res.Guarded) : s.res.listeners = [] ∧ s.res.lock = false := by
  by_cases hsettled : ∃ result, s.awaiting = .settled result
  · obtain ⟨result, hsettled⟩ := hsettled
    have hawait := hs.atAwait hwaits
    rw [hsettled] at hawait
    exact hawait
  · refine absurd (hs.guarded_of_unsettled hwaits ?_) h
    intro result hawaiting
    exact hsettled ⟨result, hawaiting⟩

/-- The runtime calls the listeners of a signal at an await. -/
theorem Good.deliver {s : State τ ε} (hs : Good s) (hwaits : s.waits = true) (sig : Signal) :
    Good (s.emit (.signal sig) []) := by
  obtain ⟨-, hnil⟩ := waits_iff.mp hwaits
  by_cases hguarded : s.res.Guarded
  · refine .of_safe hs.tracked hs.lock_eq ?_
    simpa [State.emit] using safe_signal hguarded hs.tracked sig
  · obtain ⟨hnone, -⟩ := hs.left_of_not_guarded hwaits hguarded
    refine hs.of_eq rfl ?_ rfl id
    simp [State.emit, Resources.listenersOf, hnone, hnil]

/-- The runtime calls the listeners of the exit, after which the process ends. -/
theorem Good.exit {s : State τ ε} (hs : Good s) (hwaits : s.waits = true) :
    Good (s.emit .exit [.finish]) := by
  refine .of_safe hs.tracked hs.lock_eq ?_
  by_cases hguarded : s.res.Guarded
  · exact safe_exit hguarded hs.tracked
  · obtain ⟨hnone, hlock⟩ := hs.left_of_not_guarded hwaits hguarded
    simp [State.emit, Resources.listenersOf, hnone, hlock, Safe]

theorem Good.apply {s : State τ ε} (hs : Good s) (e : Event τ ε) : Good (e.apply s) := by
  have hhappens := e.happens s
  generalize e.apply s = s' at hhappens ⊢
  cases hhappens with
  | exec halive htodo groupAlive => exact hs.exec halive htodo groupAlive
  | sweepNext hwaits hawaiting =>
    exact .sweepNext (waits_iff.mp hwaits).2 hs.tracked hs.lock_eq (hawaiting ▸ hs.atAwait hwaits) _
  | sweepFailed hwaits hawaiting failure =>
    exact .sweepFailed hs.tracked hs.lock_eq (hawaiting ▸ hs.atAwait hwaits) _
  | bodyEnds hwaits hbody result =>
    have hguarded := hs.atAwait hwaits
    rw [hbody] at hguarded
    exact .of_safe hs.tracked hs.lock_eq (safe_finallyOps hguarded hs.tracked result)
  | start hwaits hbody pid =>
    have hguarded := hs.atAwait hwaits
    rw [hbody] at hguarded
    refine .of_await (tracked_append hs.tracked pid) hs.lock_eq (waits_iff.mp hwaits).2 ?_
    rw [State.withTools, hbody]
    exact hguarded
  | reap hwaits i =>
    refine hs.withTools (waits_iff.mp hwaits).2 ?_ ?_ ?_
    · exact forall_mem_modify i hs.tracked fun t _ hlarge => absurd hlarge (not_atLarge_reap t)
    · exact fun hquiet => forall_mem_modify i hquiet fun t _ => not_atLarge_reap t
    · intro _ _ _ hempty
      simp [hempty]
  | forget hwaits i =>
    refine hs.withTools (waits_iff.mp hwaits).2 ?_ ?_ ?_
    · refine forall_mem_modify i hs.tracked fun t ht hlarge => ?_
      have hlarge := atLarge_forget.mp hlarge
      rw [watched_forget hlarge]
      exact ht hlarge
    · refine fun hquiet => forall_mem_modify i hquiet fun t ht => ?_
      rw [atLarge_forget]
      exact ht
    · intro _ _ _ hempty
      simp [hempty]
  | die halive sig => exact .of_dead hs.tracked hs.lock_eq rfl
  | queue halive sig => exact hs.of_eq rfl rfl rfl (fun _ => halive)
  | deliver hwaits hpending => exact (hs.deliver hwaits _).of_eq rfl rfl rfl id
  | exit hwaits => exact hs.exit hwaits
  | files names => exact hs.of_eq rfl rfl rfl id
  | idle => exact hs

theorem Good.of_initial {s : State τ ε} (h : Initial s) : Good s := by
  obtain ⟨-, hres, -, htodo, -, -⟩ := h
  refine .of_safe ?_ ?_ ?_
  · rw [hres]
    exact Quiet.of_nil.tracked
  · rw [hres]
    rfl
  · rw [htodo, hres]
    refine ⟨rfl, ⟨?_, rfl, rfl, rfl, rfl⟩, rfl⟩
    decide

theorem Run.good (run : Run (lifecycle τ ε)) (t : Nat) : Good (run.state t) :=
  run.invariant (fun _ => Good.of_initial) (fun e _ hs => hs.apply e) t

end Safety

section Trace
variable {τ ε : Type}

/-- What one event adds to the trace, and what held when it did. -/
inductive Adds (s s' : State τ ε) : Prop
  | remove (sweep : Sweep τ ε) (path : String) (hacts : s'.acts = .remove sweep path :: s.acts)
      (hlock : s.res.lock = true) (hlock' : s'.res.lock = true)
      (hfirst : sweep = .first → s.res.tools = []) (hquiet : sweep ≠ .first → Quiet s.res.tools)
  | unlock (hacts : s'.acts = .unlock :: s.acts) (hlock : s.res.lock = true)
      (hlock' : s'.res.lock = false)
  | raise (sig : Signal) (hacts : s'.acts = .raise sig :: s.acts)
      (hlock : s'.res.lock = s.res.lock) (hdead : s'.alive = false)
      (hnone : s'.res.listeners = [])
  | other (new : List (Act τ ε)) (hacts : s'.acts = new ++ s.acts)
      (hlock : s'.res.lock = s.res.lock)
      (hnew : ∀ a ∈ new, (∃ pid, a = .kill pid) ∨ ∃ step, a = .report step)

theorem Adds.nothing {s s' : State τ ε} (hacts : s'.acts = s.acts)
    (hlock : s'.res.lock = s.res.lock) : Adds s s' :=
  .other [] hacts hlock (by simp)

theorem Adds.acts_subset {s s' : State τ ε} (h : Adds s s') {a : Act τ ε} (ha : a ∈ s.acts) :
    a ∈ s'.acts := by
  cases h with
  | remove sweep path hacts => simp [hacts, ha]
  | unlock hacts => simp [hacts, ha]
  | raise sig hacts => simp [hacts, ha]
  | other new hacts => simp [hacts, ha]

/-- Going on with a sweep removes one path, or ends the sweep. -/
theorem adds_sweepNext {s : State τ ε} {sweep : Sweep τ ε} {rest : List String}
    (h : AtAwait (.sweeping sweep rest) s.res) (paths : List String) :
    Adds s (s.sweepNext sweep paths) := by
  cases paths with
  | nil => cases sweep <;> exact .nothing rfl rfl
  | cons path paths =>
    cases sweep with
    | first =>
      exact .remove .first path rfl h.1.lock h.1.lock (fun _ => h.2) (fun hne => absurd rfl hne)
    | last result =>
      exact .remove (.last result) path rfl h.1.lock h.1.lock (fun hfirst => nomatch hfirst)
        (fun _ => h.2)
    | final => exact h.elim

theorem Good.adds_exec {s : State τ ε} (hs : Good s) (halive : s.alive = true) {op : Op τ ε}
    {rest : List (Op τ ε)} (htodo : s.todo = op :: rest) (groupAlive : Nat → Bool) :
    Adds s (op.exec groupAlive { s with todo := rest }) := by
  have hsafe := hs.safe_cons halive htodo
  have hkills : ∀ a ∈ s.res.signalledBy.map (Act.kill (τ := τ) (ε := ε)),
      (∃ pid, a = .kill pid) ∨ ∃ step, a = .report step := by
    intro a ha
    obtain ⟨pid, -, rfl⟩ := List.mem_map.mp ha
    exact .inl ⟨pid, rfl⟩
  cases op with
  | on g t => exact .nothing rfl rfl
  | off g t => exact .nothing rfl rfl
  | stopOnce =>
    by_cases hstopped : s.res.stopped = true
    · simp only [Op.exec, hstopped, if_true]
      exact .nothing rfl rfl
    · simp only [Op.exec, hstopped, Bool.false_eq_true, if_false]
      exact .other _ rfl (stopOnce_lock s.res) hkills
  | stopChildren =>
    simp only [Op.exec]
    split
    · exact .other _ rfl rfl hkills
    · refine .other (.report _ :: s.res.signalledBy.map .kill) rfl rfl ?_
      intro a ha
      rcases List.mem_cons.mp ha with rfl | ha
      · exact .inr ⟨_, rfl⟩
      · exact hkills a ha
  | report step => exact .other [.report step] rfl rfl (by simp)
  | sweepOnce =>
    simp only [Op.exec]
    split <;> exact .nothing rfl rfl
  | remove path =>
    obtain ⟨hlock, hquiet, -⟩ := hsafe
    exact .remove .final path rfl hlock hlock (fun h => nomatch h) (fun _ => hquiet)
  | clear sweep =>
    have hawait : AtAwait (.sweeping sweep []) s.res := by
      cases sweep with
      | first => exact hsafe.2
      | last result => exact hsafe.2
      | final => exact hsafe.elim
    cases hpaths : witnessPaths s.names with
    | nil => simp [witnessPaths] at hpaths
    | cons path paths =>
      simp only [Op.exec, hpaths]
      have h := adds_sweepNext hawait (path :: paths)
      cases h with
      | remove sweep' path' hacts hlock hlock' hfirst hquiet =>
        exact .remove sweep' path' hacts hlock hlock' hfirst hquiet
      | unlock hacts hlock hlock' => exact .unlock hacts hlock hlock'
      | raise sig hacts hlock hdead hnone => cases hacts
      | other new hacts hlock hnew => exact .other new hacts hlock hnew
  | release =>
    simp only [Op.exec]
    split
    · rename_i h
      simp only [Bool.and_eq_true, Bool.not_eq_true'] at h
      exact .unlock rfl h.1 (by simp [Resources.release, h.2])
    · rename_i h
      refine .nothing rfl ?_
      have hlock := hs.lock_eq
      cases hreleased : s.res.released with
      | true => simp [Resources.release, hreleased]
      | false => simp [hlock, hreleased] at h
  | raise sig =>
    have hof : s.res.listenersOf (.signal sig) = [] := by simp [Resources.listenersOf, hsafe.2.1]
    simp only [Op.exec, hof, if_true]
    exact .raise sig rfl rfl rfl hsafe.2.1
  | finish => exact .nothing rfl rfl
  | settle result => exact .nothing rfl rfl

/-- An event that leaves the trace and the lock alone adds nothing. -/
theorem Good.adds {s : State τ ε} (hs : Good s) (e : Event τ ε) : Adds s (e.apply s) := by
  have hhappens := e.happens s
  generalize e.apply s = s' at hhappens ⊢
  cases hhappens with
  | exec halive htodo groupAlive => exact hs.adds_exec halive htodo groupAlive
  | @sweepNext sweep rest hwaits hawaiting =>
    have hawait := hs.atAwait hwaits
    exact adds_sweepNext (hawaiting ▸ hawait) rest
  | @sweepFailed sweep rest hwaits hawaiting failure => cases sweep <;> exact .nothing rfl rfl
  | _ => exact .nothing rfl rfl

/-- A process that has ended does nothing more. -/
theorem apply_dead {s : State τ ε} (hdead : s.alive = false) (e : Event τ ε) :
    (e.apply s).alive = false ∧ (e.apply s).res = s.res ∧ (e.apply s).acts = s.acts := by
  have hwaits : s.waits ≠ true := fun h => by simp [(waits_iff.mp h).1] at hdead
  have hhappens := e.happens s
  generalize e.apply s = s' at hhappens ⊢
  cases hhappens with
  | exec halive | die halive | queue halive => simp [halive] at hdead
  | files | idle => exact ⟨hdead, rfl, rfl⟩
  | _ h => exact absurd h hwaits

/-- The trace of a state: the lock file is removed at most once, after every removal
of a witness file, and a raised signal is the last act of a process without
listeners. -/
structure Traced (s : State τ ε) : Prop where
  locked : s.res.lock = true → .unlock ∉ s.acts
  unlocked : s.res.lock = false → .unlock ∈ s.acts
  after_unlock : ∀ newer older, s.acts = newer ++ .unlock :: older →
    .unlock ∉ newer ∧ ∀ sweep path, .remove sweep path ∉ newer
  after_raise : ∀ newer sig older, s.acts = newer ++ .raise sig :: older →
    newer = [] ∧ s.alive = false ∧ s.res.listeners = []

/-- Where an element of a longer list stands. -/
theorem cons_eq_append_cons {α : Type} {a b : α} {l newer older : List α}
    (h : a :: l = newer ++ b :: older) :
    (newer = [] ∧ a = b ∧ l = older) ∨ ∃ newer', newer = a :: newer' ∧ l = newer' ++ b :: older := by
  cases newer with
  | nil =>
    obtain ⟨rfl, rfl⟩ := List.cons.inj h
    exact .inl ⟨rfl, rfl, rfl⟩
  | cons c newer =>
    obtain ⟨rfl, hl⟩ := List.cons.inj h
    exact .inr ⟨newer, rfl, hl⟩

/-- An element of a list that a prefix without it extends stands in the old part. -/
theorem append_eq_append_cons {α : Type} {b : α} {new l newer older : List α} (hb : b ∉ new)
    (h : new ++ l = newer ++ b :: older) : ∃ newer', newer = new ++ newer' ∧ l = newer' ++ b :: older := by
  induction new generalizing newer with
  | nil => exact ⟨newer, rfl, h⟩
  | cons a new ih =>
    obtain ⟨hne, hnot⟩ : b ≠ a ∧ b ∉ new := by simpa using hb
    rcases cons_eq_append_cons h with ⟨-, rfl, -⟩ | ⟨newer', rfl, hl⟩
    · exact absurd rfl hne
    · obtain ⟨rest, rfl, hrest⟩ := ih hnot hl
      exact ⟨rest, rfl, hrest⟩

theorem Traced.of_initial {s : State τ ε} (h : Initial s) : Traced s := by
  obtain ⟨-, hres, -, -, -, hacts⟩ := h
  refine ⟨?_, ?_, ?_, ?_⟩
  · simp [hacts]
  · simp [hres]
  · simp [hacts]
  · simp [hacts]

/-- A removal, while the process holds its lock file. -/
theorem Traced.remove {s s' : State τ ε} (ht : Traced s) (hno : ∀ sig, .raise sig ∉ s.acts)
    {sweep : Sweep τ ε} {path : String} (hacts : s'.acts = .remove sweep path :: s.acts)
    (hlock : s.res.lock = true) (hlock' : s'.res.lock = true) : Traced s' := by
  have hnot := ht.locked hlock
  refine ⟨?_, ?_, ?_, ?_⟩
  · simpa [hacts] using fun _ => hnot
  · simp [hlock']
  · rw [hacts]
    intro newer older h
    have hmem : Act.unlock ∈ (.remove sweep path :: s.acts : List (Act τ ε)) := by simp [h]
    simp [hnot] at hmem
  · rw [hacts]
    intro newer sig older h
    have hmem : Act.raise sig ∈ (.remove sweep path :: s.acts : List (Act τ ε)) := by simp [h]
    simp [hno] at hmem

/-- The removal of the lock file. -/
theorem Traced.unlock {s s' : State τ ε} (ht : Traced s) (hno : ∀ sig, .raise sig ∉ s.acts)
    (hacts : s'.acts = .unlock :: s.acts) (hlock : s.res.lock = true)
    (hlock' : s'.res.lock = false) : Traced s' := by
  have hnot := ht.locked hlock
  refine ⟨?_, ?_, ?_, ?_⟩
  · simp [hlock']
  · simp [hacts]
  · rw [hacts]
    intro newer older h
    rcases cons_eq_append_cons h with ⟨rfl, -, -⟩ | ⟨newer', -, hl⟩
    · simp
    · exact absurd (by simp [hl]) hnot
  · rw [hacts]
    intro newer sig older h
    have hmem : Act.raise sig ∈ (.unlock :: s.acts : List (Act τ ε)) := by simp [h]
    simp [hno] at hmem

/-- The raised signal, by a process without listeners. -/
theorem Traced.raise {s s' : State τ ε} (ht : Traced s) (hno : ∀ sig, .raise sig ∉ s.acts)
    {sig : Signal} (hacts : s'.acts = .raise sig :: s.acts) (hlock : s'.res.lock = s.res.lock)
    (hdead : s'.alive = false) (hnone : s'.res.listeners = []) : Traced s' := by
  refine ⟨?_, ?_, ?_, ?_⟩
  · simpa [hacts, hlock] using ht.locked
  · simpa [hacts, hlock] using ht.unlocked
  · rw [hacts]
    intro newer older h
    rcases cons_eq_append_cons h with ⟨-, hne, -⟩ | ⟨newer', rfl, hl⟩
    · cases hne
    · obtain ⟨hone, hremoves⟩ := ht.after_unlock newer' older hl
      exact ⟨by simpa using hone, fun sweep path => by simpa using hremoves sweep path⟩
  · rw [hacts]
    intro newer sig' older h
    rcases cons_eq_append_cons h with ⟨hnil, -, -⟩ | ⟨newer', -, hl⟩
    · exact ⟨hnil, hdead, hnone⟩
    · exact absurd (by simp [hl]) (hno sig')

/-- Kills and reports. -/
theorem Traced.other {s s' : State τ ε} (ht : Traced s) (hno : ∀ sig, .raise sig ∉ s.acts)
    {new : List (Act τ ε)} (hacts : s'.acts = new ++ s.acts) (hlock : s'.res.lock = s.res.lock)
    (hnew : ∀ a ∈ new, (∃ pid, a = .kill pid) ∨ ∃ step, a = .report step) : Traced s' := by
  have hnounlock : Act.unlock ∉ new := by
    intro hmem
    rcases hnew _ hmem with ⟨pid, h⟩ | ⟨step, h⟩ <;> cases h
  have hnoraise : ∀ sig, Act.raise sig ∉ new := by
    intro sig hmem
    rcases hnew _ hmem with ⟨pid, h⟩ | ⟨step, h⟩ <;> cases h
  have hnoremove : ∀ sweep path, Act.remove sweep path ∉ new := by
    intro sweep path hmem
    rcases hnew _ hmem with ⟨pid, h⟩ | ⟨step, h⟩ <;> cases h
  refine ⟨?_, ?_, ?_, ?_⟩
  · simpa [hacts, hlock, hnounlock] using ht.locked
  · simpa [hacts, hlock, hnounlock] using ht.unlocked
  · rw [hacts]
    intro newer older h
    obtain ⟨newer', rfl, hl⟩ := append_eq_append_cons hnounlock h
    obtain ⟨hone, hnone⟩ := ht.after_unlock newer' older hl
    refine ⟨by simp [hnounlock, hone], ?_⟩
    intro sweep path
    simp [hnoremove, hnone]
  · rw [hacts]
    intro newer sig older h
    obtain ⟨newer', -, hl⟩ := append_eq_append_cons (hnoraise sig) h
    exact absurd (by simp [hl]) (hno sig)

theorem Traced.apply {s : State τ ε} (hs : Good s) (ht : Traced s) (e : Event τ ε) :
    Traced (e.apply s) := by
  by_cases halive : s.alive = false
  · obtain ⟨hdead, hres, hacts⟩ := apply_dead halive e
    refine ⟨?_, ?_, ?_, ?_⟩
    · rw [hres, hacts]
      exact ht.locked
    · rw [hres, hacts]
      exact ht.unlocked
    · rw [hacts]
      exact ht.after_unlock
    · rw [hres, hacts]
      intro newer sig older h
      obtain ⟨hnil, -, hnone⟩ := ht.after_raise newer sig older h
      exact ⟨hnil, hdead, hnone⟩
  · have hno : ∀ sig, .raise sig ∉ s.acts := by
      intro sig hmem
      obtain ⟨newer, older, h⟩ := List.append_of_mem hmem
      exact halive (ht.after_raise newer sig older h).2.1
    cases hs.adds e with
    | remove sweep path hacts hlock hlock' => exact ht.remove hno hacts hlock hlock'
    | unlock hacts hlock hlock' => exact ht.unlock hno hacts hlock hlock'
    | raise sig hacts hlock hdead hnone => exact ht.raise hno hacts hlock hdead hnone
    | other new hacts hlock hnew => exact ht.other hno hacts hlock hnew

end Trace

section Endings
variable {τ ε : Type}

/-- The result that the caller will see is decided. -/
def Carries (s : State τ ε) (result : Except ε τ) : Prop :=
  s.awaiting = .settled result ∨ (∃ rest, s.awaiting = .sweeping (.last result) rest) ∨
    .clear (.last result) ∈ s.todo ∨ .settle result ∈ s.todo

/-- The work ends with the end of the process. -/
def Ending (todo : List (Op τ ε)) : Prop :=
  ∃ before final, todo = before ++ [final] ∧ (final = .finish ∨ ∃ sig, final = .raise sig)

def Op.isSweepOnce : Op τ ε → Bool
  | .sweepOnce => true
  | _ => false

/-- The sweeps that are not unfolded, and then the length of the work. -/
def work (s : State τ ε) : ℕ ×ₗ ℕ := toLex (s.todo.countP Op.isSweepOnce, s.todo.length)

theorem Ending.tail {op : Op τ ε} {rest : List (Op τ ε)} (h : Ending (op :: rest))
    (hne : rest ≠ []) : Ending rest := by
  obtain ⟨before, final, heq, hfinal⟩ := h
  cases before with
  | nil =>
    obtain ⟨-, hnil⟩ := List.cons.inj heq
    exact absurd hnil hne
  | cons first before =>
    obtain ⟨-, hrest⟩ := List.cons.inj heq
    exact ⟨before, final, hrest, hfinal⟩

theorem Ending.append {todo : List (Op τ ε)} (h : Ending todo) (new : List (Op τ ε)) :
    Ending (new ++ todo) := by
  obtain ⟨before, final, rfl, hfinal⟩ := h
  exact ⟨new ++ before, final, by simp, hfinal⟩

theorem Ending.ne_nil {todo : List (Op τ ε)} (h : Ending todo) : todo ≠ [] := by
  obtain ⟨before, final, rfl, -⟩ := h
  simp

/-- The process is given the time for an operation. -/
def Event.IsStep (e : Event τ ε) : Prop := ∃ groupAlive, e = .step groupAlive

end Endings
end RunLifecycle
end ZkPoR
