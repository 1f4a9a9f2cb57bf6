import ZkPoR.RunLifecycle

/-! # The endings of a proving run

The trace of a run holds the kills of its tools and the removals of its sweeps, and the lock
is held until a sweep behind the first one was asked for.

A run that nobody interrupts comes to its body, and from the end of its body to the caller:
the tools are stopped, the last sweep is gone through, the guards are dropped, and the lock
is released, whatever the removals answer.  A run whose guards are called ends with its
process.  Both need the runtime to go on: it does the synchronous work (`Event.IsStep`) and
answers the removals (`Event.IsAnswer`).

The way back to the caller has three stretches, and each has a measure that its events
lower: the operations up to a sweep, the paths of the sweep, and the operations behind it.
-/
namespace ZkPoR
namespace RunLifecycle
open TransitionSystem
variable {τ ε : Type}

/-! ## The kills and the sweeps -/

section Sent

/-- Every signalled tool is one whose group was sent `SIGKILL`. -/
def Killed (s : State τ ε) : Prop :=
  ∀ tool ∈ s.res.tools, tool.signalled = true → ∃ pid, tool.pid = some pid ∧ .kill pid ∈ s.acts

theorem Killed.of_tools {s s' : State τ ε} (h : Killed s) (htools : s'.res.tools = s.res.tools)
    (hacts : ∀ a ∈ s.acts, a ∈ s'.acts) : Killed s' := by
  intro tool htool hsignalled
  obtain ⟨pid, hpid, hkill⟩ := h tool (htools ▸ htool) hsignalled
  exact ⟨pid, hpid, hacts _ hkill⟩

/-- A stop sends the signal to every group that it marks. -/
theorem Killed.stop {s : State τ ε} (h : Killed s) : Killed s.stop := by
  intro after hafter hsignalled
  obtain ⟨tool, htool, rfl⟩ := List.mem_map.mp hafter
  have hold : tool.signalled = true → ∃ pid, tool.pid = some pid ∧ .kill pid ∈ s.stop.acts := by
    intro hbefore
    obtain ⟨pid, hpid, hkill⟩ := h tool htool hbefore
    exact ⟨pid, hpid, List.mem_append_right _ hkill⟩
  by_cases hwatched : tool.watched = true
  · simp only [hwatched, if_true, Bool.or_eq_true] at hsignalled ⊢
    rcases hsignalled with hbefore | hours
    · exact hold hbefore
    · obtain ⟨pid, hpid⟩ : ∃ pid, tool.pid = some pid :=
        Option.isSome_iff_exists.mp (Bool.and_eq_true_iff.mp hours).1
      have hmem : tool ∈ s.res.tools.filter fun t => t.watched && t.stillOurs :=
        List.mem_filter.mpr ⟨htool, by simp [hwatched, hours]⟩
      exact ⟨pid, hpid, List.mem_append_left _
        (List.mem_map_of_mem (List.mem_filterMap.mpr ⟨tool, hmem, hpid⟩))⟩
  · rw [if_neg hwatched] at hsignalled ⊢
    exact hold hsignalled

theorem res_sweepNext (s : State τ ε) (sweep : Sweep τ ε) (paths : List String) :
    (s.sweepNext sweep paths).res = s.res := by
  cases paths with
  | cons path paths => rfl
  | nil => cases sweep <;> rfl

theorem Killed.exec {s : State τ ε} (h : Killed s) {op : Op τ ε} (groupAlive : Nat → Bool)
    (hacts : ∀ a ∈ s.acts, a ∈ (op.exec groupAlive s).acts) : Killed (op.exec groupAlive s) := by
  cases op with
  | stopOnce =>
    by_cases hstopped : s.res.stopped = true
    · simpa only [Op.exec, hstopped, if_true] using h
    · simp only [Op.exec, Resources.stopOnce, hstopped, Bool.false_eq_true, if_false]
      exact h.stop
  | stopChildren =>
    simp only [Op.exec]
    split
    · exact h.stop
    · exact h.stop.of_tools rfl fun a ha => List.mem_cons_of_mem _ ha
  | sweepOnce | raise =>
    refine h.of_tools ?_ hacts
    simp only [Op.exec]
    split <;> rfl
  | release =>
    refine h.of_tools ?_ hacts
    simp only [Op.exec]
    split <;> exact release_tools s.res
  | clear sweep => exact h.of_tools (congrArg Resources.tools (res_sweepNext s sweep _)) hacts
  | on | off | report | remove | finish | settle => exact h.of_tools rfl hacts

/-- What one step changes of a tool leaves its group and the mark of the signal. -/
theorem Killed.modify {s : State τ ε} (h : Killed s) (i : Nat) {f : Tool → Tool}
    (hf : ∀ tool, (f tool).pid = tool.pid ∧ (f tool).signalled = tool.signalled) :
    Killed (s.withTools (s.res.tools.modify i f)) := by
  refine forall_mem_modify i h fun tool htool hsignalled => ?_
  rw [(hf tool).1]
  exact htool ((hf tool).2 ▸ hsignalled)

theorem Killed.apply {s : State τ ε} (hs : Good s) (h : Killed s) (e : Event τ ε) :
    Killed (e.apply s) := by
  have hacts : ∀ a ∈ s.acts, a ∈ (e.apply s).acts := fun _ => (hs.adds e).acts_subset
  have hhappens := e.happens s
  generalize e.apply s = s' at hacts hhappens ⊢
  cases hhappens with
  | @exec op rest _ _ groupAlive => exact Killed.exec (s := { s with todo := rest }) h groupAlive hacts
  | sweepNext => exact h.of_tools (congrArg Resources.tools (res_sweepNext s _ _)) hacts
  | @sweepFailed sweep => exact h.of_tools (by cases sweep <;> rfl) hacts
  | start _ _ pid =>
    intro tool htool hsignalled
    rcases List.mem_append.mp htool with htool | htool
    · exact h tool htool hsignalled
    · rw [List.mem_singleton.mp htool] at hsignalled
      cases hsignalled
  | reap _ i => exact h.modify i fun _ => ⟨rfl, rfl⟩
  | forget _ i =>
    refine h.modify i fun tool => ?_
    unfold Tool.forget
    split <;> exact ⟨rfl, rfl⟩
  | bodyEnds | die | queue | deliver | exit | files | idle => exact h.of_tools rfl hacts

/-- A sweep other than the first has asked for a removal. -/
def Cleared (acts : List (Act τ ε)) : Prop :=
  ∃ sweep path, sweep ≠ .first ∧ .remove sweep path ∈ acts

/-- The work asks for a removal before it releases the lock. -/
def ClearsFirst : List (Op τ ε) → Prop
  | [] | .clear _ :: _ | .sweepOnce :: _ | .remove _ :: _ => True
  | .release :: _ => False
  | _ :: rest => ClearsFirst rest

/-- The lock is held, and not about to be released, until a sweep other than the first has
asked for a removal. -/
structure Kept (s : State τ ε) : Prop where
  sweeping : ∀ result rest, s.awaiting = .sweeping (.last result) rest → Cleared s.acts
  work : Cleared s.acts ∨ (s.res.lock = true ∧ ClearsFirst s.todo)

theorem Kept.of_cleared {s : State τ ε} (h : Cleared s.acts) : Kept s := ⟨fun _ _ _ => h, .inl h⟩

theorem cleared_remove (sweep : Sweep τ ε) (path : String) (h : sweep ≠ .first)
    (acts : List (Act τ ε)) : Cleared (.remove sweep path :: acts) :=
  ⟨sweep, path, h, List.mem_cons_self⟩

theorem clearsFirst_listeners (t : Trigger) (guards : List Guard) (rest : List (Op τ ε))
    (hrest : ClearsFirst rest) : ClearsFirst (guards.flatMap (listenerOps t) ++ rest) := by
  induction guards with
  | nil => exact hrest
  | cons g guards ih =>
    rw [List.flatMap_cons, List.append_assoc]
    cases g with
    | children => cases t <;> exact ih
    | witnesses => cases t <;> exact trivial

/-- Where no sweep but the first has asked for a removal, the lock is held. -/
theorem Kept.of_work {s : State τ ε} (hlock : s.res.lock = true) (hwork : ClearsFirst s.todo)
    (hnot : ∀ result rest, s.awaiting ≠ .sweeping (.last result) rest) : Kept s :=
  ⟨fun result rest h => absurd h (hnot result rest), .inr ⟨hlock, hwork⟩⟩

theorem Kept.exec {s : State τ ε} {op : Op τ ε} {rest : List (Op τ ε)}
    (hsafe : Safe (op :: rest) s.res) (hlock : s.res.lock = true) (hwork : ClearsFirst (op :: rest))
    (hnot : ∀ result rest, s.awaiting ≠ .sweeping (.last result) rest) (groupAlive : Nat → Bool) :
    Kept (op.exec groupAlive { s with todo := rest }) := by
  cases op with
  | on | off | report | finish => exact .of_work hlock hwork hnot
  | settle =>
    refine .of_work hlock hwork ?_
    intro result rest h
    cases h
  | stopOnce =>
    simp only [Op.exec]
    split
    · exact .of_work hlock hwork hnot
    · exact .of_work ((stopOnce_lock s.res).trans hlock) hwork hnot
  | stopChildren | raise =>
    simp only [Op.exec]
    split <;> exact .of_work hlock hwork hnot
  | sweepOnce =>
    simp only [Op.exec, hsafe.1, Bool.false_eq_true, if_false]
    exact .of_work hlock trivial hnot
  | remove path =>
    refine .of_cleared (cleared_remove .final path ?_ s.acts)
    intro h
    cases h
  | release => exact hwork.elim
  | clear sweep =>
    cases sweep with
    | first =>
      obtain ⟨rfl, -⟩ := hsafe
      refine .of_work hlock trivial ?_
      intro result rest h
      cases h
    | last result =>
      refine .of_cleared (cleared_remove (.last result) _ ?_ s.acts)
      intro h
      cases h
    | final => exact hsafe.elim

theorem Kept.apply {s : State τ ε} (hs : Good s) (h : Kept s) (e : Event τ ε) :
    Kept (e.apply s) := by
  by_cases hcleared : Cleared s.acts
  · obtain ⟨sweep, path, hne, hmem⟩ := hcleared
    exact .of_cleared ⟨sweep, path, hne, (hs.adds e).acts_subset hmem⟩
  · obtain ⟨hlock, hwork⟩ := h.work.resolve_left hcleared
    have hnot : ∀ result rest, s.awaiting ≠ .sweeping (.last result) rest :=
      fun result rest hawaiting => hcleared (h.sweeping result rest hawaiting)
    have hfinal : s.waits = true → ∀ rest, s.awaiting ≠ .sweeping .final rest := by
      intro hwaits rest hawaiting
      have hawait := hs.atAwait hwaits
      rw [hawaiting] at hawait
      exact hawait
    have hhappens := e.happens s
    generalize e.apply s = s' at hhappens ⊢
    cases hhappens with
    | @exec op rest halive htodo groupAlive =>
      exact Kept.exec (hs.safe_cons halive htodo) hlock (htodo ▸ hwork) hnot groupAlive
    | @sweepNext sweep rest hwaits hawaiting =>
      cases sweep with
      | first =>
        cases rest <;>
          · refine .of_work hlock hwork ?_
            intro result rest h
            cases h
      | last result => exact absurd hawaiting (hnot result rest)
      | final => exact absurd hawaiting (hfinal hwaits rest)
    | @sweepFailed sweep rest hwaits hawaiting failure =>
      cases sweep with
      | first => exact .of_work hlock trivial hnot
      | last result => exact absurd hawaiting (hnot result rest)
      | final => exact absurd hawaiting (hfinal hwaits rest)
    | bodyEnds => exact .of_work hlock trivial hnot
    | deliver => exact .of_work hlock (clearsFirst_listeners _ _ [] trivial) hnot
    | exit => exact .of_work hlock (clearsFirst_listeners _ _ [.finish] trivial) hnot
    | start | reap | forget | die | queue | files | idle => exact .of_work hlock hwork hnot

theorem Run.kept (run : Run (lifecycle τ ε)) (t : Nat) : Kept (run.state t) := by
  refine (run.invariant (P := fun s => Good s ∧ Kept s) ?_
    (fun e _ h => ⟨h.1.apply e, h.2.apply h.1 e⟩) t).2
  rintro s h
  obtain ⟨-, hres, -, htodo, hawaiting, -⟩ := id h
  refine ⟨Good.of_initial h, .of_work (by rw [hres]) (by rw [htodo]; exact trivial) ?_⟩
  rw [hawaiting]
  exact nofun

/-- The lock is released behind a sweep other than the first. -/
theorem Run.cleared (run : Run (lifecycle τ ε)) {t : Nat} (h : (run.state t).res.lock = false) :
    Cleared (run.state t).acts := by
  rcases (Run.kept run t).work with hcleared | ⟨hlock, -⟩
  · exact hcleared
  · rw [h] at hlock
    cases hlock

end Sent

/-! ## The process ends -/

section Interrupted

end Interrupted

/-! ## The run goes on -/

section Undisturbed

/-- The runtime answers the awaited removal. -/
def Event.IsAnswer (e : Event τ ε) : Prop := ∃ failure, e = .removed failure

/-- An event that leaves the run to itself: no listener of a guard is called, and a signal
that comes waits for one. -/
def Event.Calm (s : State τ ε) : Event τ ε → Prop
  | .arrive sig => s.res.listenersOf (.signal sig) ≠ []
  | .deliver sig => s.waits = true → sig ∉ s.pending
  | .exit => s.waits = false
  | _ => True

/-- Nobody interrupts the run from an instant on, until its promise settles. -/
def Run.Undisturbed (run : Run (lifecycle τ ε)) (t : Nat) : Prop :=
  ∀ u, t ≤ u → (run.event u).Calm (run.state u) ∨
    ∃ result, (run.state u).awaiting = .settled result

/-- What an event does not touch of the lifecycle. -/
structure Aside (s s' : State τ ε) : Prop where
  alive : s'.alive = s.alive
  todo : s'.todo = s.todo
  awaiting : s'.awaiting = s.awaiting

/-- **The calm events.**  An operation, an answer, the end of the body, or nothing that the
lifecycle reads. -/
theorem Event.Calm.cases {s : State τ ε} {e : Event τ ε} (h : e.Calm s) :
    e.IsStep ∨ e.IsAnswer ∨ (∃ result, e = .bodyEnds result) ∨ Aside s (e.apply s) := by
  cases e with
  | step groupAlive => exact .inl ⟨groupAlive, rfl⟩
  | removed failure => exact .inr (.inl ⟨failure, rfl⟩)
  | bodyEnds result => exact .inr (.inr (.inl ⟨result, rfl⟩))
  | arrive sig =>
    refine .inr (.inr (.inr ?_))
    have hne : s.res.listenersOf (.signal sig) ≠ [] := h
    simp only [Event.apply, hne, if_false]
    split <;> exact ⟨rfl, rfl, rfl⟩
  | deliver sig =>
    refine .inr (.inr (.inr ?_))
    have hnot : ¬ (s.waits = true ∧ sig ∈ s.pending) := fun hboth => h hboth.1 hboth.2
    simp only [Event.apply, hnot, if_false]
    exact ⟨rfl, rfl, rfl⟩
  | exit =>
    refine .inr (.inr (.inr ?_))
    have hwaits : s.waits = false := h
    simp only [Event.apply, hwaits, Bool.false_eq_true, if_false]
    exact ⟨rfl, rfl, rfl⟩
  | start pid =>
    refine .inr (.inr (.inr ?_))
    simp only [Event.apply]
    split
    · split <;> exact ⟨rfl, rfl, rfl⟩
    · exact ⟨rfl, rfl, rfl⟩
  | reap i | forget i =>
    refine .inr (.inr (.inr ?_))
    simp only [Event.apply]
    split <;> exact ⟨rfl, rfl, rfl⟩
  | files names => exact .inr (.inr (.inr ⟨rfl, rfl, rfl⟩))

theorem Run.Undisturbed.mono {run : Run (lifecycle τ ε)} {t u : Nat} (h : Run.Undisturbed run t)
    (htu : t ≤ u) : Run.Undisturbed run u :=
  fun v huv => h v (htu.trans huv)

/-! ### The operations up to the last one -/

/-- An operation that only acts on what the run holds. -/
def Op.Plain : Op τ ε → Prop
  | .on _ _ | .off _ _ | .stopOnce | .stopChildren | .report _ | .remove _ | .release => True
  | _ => False

theorem Op.Plain.aside {op : Op τ ε} (h : op.Plain) (groupAlive : Nat → Bool) (s : State τ ε) :
    Aside s (op.exec groupAlive s) := by
  cases op with
  | stopOnce | stopChildren | release =>
    simp only [Op.exec]
    split <;> exact ⟨rfl, rfl, rfl⟩
  | on g t | off g t | report step | remove path => exact ⟨rfl, rfl, rfl⟩
  | sweepOnce | clear sweep | raise sig | finish | settle result => exact h.elim

/-- Plain operations stand in front of the last one. -/
structure Before (last : Op τ ε) (s : State τ ε) : Prop where
  alive : s.alive = true
  unsettled : ∀ result, s.awaiting ≠ .settled result
  todo : ∃ ops, s.todo = ops ++ [last] ∧ ∀ op ∈ ops, op.Plain

/-- The last operation has just been done. -/
def Done (last : Op τ ε) (s' : State τ ε) : Prop :=
  ∃ groupAlive s, s.alive = true ∧ s.todo = [] ∧ (∀ result, s.awaiting ≠ .settled result) ∧
    s' = last.exec groupAlive s

theorem Before.of_aside {last : Op τ ε} {s s' : State τ ε} (h : Before last s)
    (haside : Aside s s') : Before last s' where
  alive := haside.alive.trans h.alive
  unsettled := by
    rw [haside.awaiting]
    exact h.unsettled
  todo := by
    rw [haside.todo]
    exact h.todo

theorem Before.not_waits {last : Op τ ε} {s : State τ ε} (h : Before last s) : s.waits = false := by
  obtain ⟨ops, htodo, -⟩ := h.todo
  simp [State.waits, htodo]

/-- One operation of the stretch: it is the last one, or one fewer stands before it. -/
theorem Before.step {last : Op τ ε} {s : State τ ε} (h : Before last s) (groupAlive : Nat → Bool) :
    Done last ((Event.step groupAlive).apply s) ∨
      (Before last ((Event.step groupAlive).apply s) ∧
        ((Event.step groupAlive).apply s).todo.length < s.todo.length) := by
  obtain ⟨ops, htodo, hplain⟩ := h.todo
  cases ops with
  | nil =>
    left
    refine ⟨groupAlive, { s with todo := [] }, h.alive, rfl, h.unsettled, ?_⟩
    simp only [Event.apply, htodo, List.nil_append, h.alive, if_true]
  | cons op ops =>
    right
    have happly : (Event.step groupAlive).apply s =
        op.exec groupAlive { s with todo := ops ++ [last] } := by
      simp only [Event.apply, htodo, List.cons_append, h.alive, if_true]
    have haside := (hplain op List.mem_cons_self).aside groupAlive { s with todo := ops ++ [last] }
    rw [happly]
    have hrest : Before last { s with todo := ops ++ [last] } :=
      ⟨h.alive, h.unsettled, ops, rfl, fun op' hop => hplain op' (List.mem_cons_of_mem op hop)⟩
    refine ⟨hrest.of_aside haside, ?_⟩
    rw [haside.todo, htodo]
    simp

theorem Before.apply {last : Op τ ε} {s : State τ ε} (h : Before last s) {e : Event τ ε}
    (hcalm : e.Calm s) :
    Done last (e.apply s) ∨ (Before last (e.apply s) ∧ (e.apply s).todo.length ≤ s.todo.length ∧
      (e.IsStep → (e.apply s).todo.length < s.todo.length)) := by
  have hnot := h.not_waits
  by_cases hstep : e.IsStep
  · obtain ⟨groupAlive, rfl⟩ := hstep
    exact (h.step groupAlive).imp id fun h' => ⟨h'.1, h'.2.le, fun _ => h'.2⟩
  · right
    have haside : Aside s (e.apply s) := by
      rcases hcalm.cases with h' | ⟨failure, rfl⟩ | ⟨result, rfl⟩ | haside
      · exact absurd h' hstep
      · simp only [Event.apply, hnot, Bool.false_eq_true, if_false]
        exact ⟨rfl, rfl, rfl⟩
      · simp only [Event.apply, hnot, Bool.false_eq_true, if_false]
        exact ⟨rfl, rfl, rfl⟩
      · exact haside
    exact ⟨h.of_aside haside, (congrArg List.length haside.todo).le, fun h' => absurd h' hstep⟩

/-- A sweep awaits the answer to one of its removals. -/
structure Sweeping (sweep : Sweep τ ε) (s : State τ ε) : Prop where
  waits : s.waits = true
  awaiting : ∃ rest, s.awaiting = .sweeping sweep rest

/-- The paths of a sweep behind the awaited one. -/
def pathsLeft (s : State τ ε) : Nat :=
  match s.awaiting with
  | .sweeping _ rest => rest.length
  | _ => 0

/-- The sweep has just come to its end, or to a removal that failed. -/
def Swept (sweep : Sweep τ ε) (s' : State τ ε) : Prop :=
  ∃ s, Sweeping sweep s ∧
    (s' = s.sweepDone sweep ∨ ∃ failure, s' = s.sweepFailed failure sweep)

theorem Sweeping.unsettled {sweep : Sweep τ ε} {s : State τ ε} (h : Sweeping sweep s)
    (result : Except ε τ) : s.awaiting ≠ .settled result := by
  obtain ⟨rest, hawaiting⟩ := h.awaiting
  intro hsettled
  cases hawaiting.symm.trans hsettled

theorem Sweeping.of_aside {sweep : Sweep τ ε} {s s' : State τ ε} (h : Sweeping sweep s)
    (haside : Aside s s') : Sweeping sweep s' where
  waits := by
    rw [State.waits, haside.alive, haside.todo]
    exact h.waits
  awaiting := by
    rw [haside.awaiting]
    exact h.awaiting

/-- One answer: the sweep is gone through, or one path fewer is left. -/
theorem Sweeping.removed {sweep : Sweep τ ε} {s : State τ ε} (h : Sweeping sweep s)
    (failure : Option ε) :
    Swept sweep ((Event.removed failure).apply s) ∨
      (Sweeping sweep ((Event.removed failure).apply s) ∧
        pathsLeft ((Event.removed failure).apply s) < pathsLeft s) := by
  obtain ⟨rest, hawaiting⟩ := h.awaiting
  cases failure with
  | some e =>
    refine .inl ⟨s, h, .inr ⟨e, ?_⟩⟩
    simp only [Event.apply, h.waits, if_true, hawaiting]
  | none =>
    have happly : (Event.removed none).apply s = s.sweepNext sweep rest := by
      simp only [Event.apply, h.waits, if_true, hawaiting]
    rw [happly]
    cases rest with
    | nil => exact .inl ⟨s, h, .inl rfl⟩
    | cons path rest =>
      refine .inr ⟨⟨h.waits, rest, rfl⟩, ?_⟩
      simp only [pathsLeft, hawaiting, State.sweepNext, List.length_cons]
      exact Nat.lt_succ_self _

theorem Sweeping.apply {sweep : Sweep τ ε} {s : State τ ε} (h : Sweeping sweep s)
    {e : Event τ ε} (hcalm : e.Calm s) :
    Swept sweep (e.apply s) ∨ (Sweeping sweep (e.apply s) ∧ pathsLeft (e.apply s) ≤ pathsLeft s ∧
      (e.IsAnswer → pathsLeft (e.apply s) < pathsLeft s)) := by
  by_cases hanswer : e.IsAnswer
  · obtain ⟨failure, rfl⟩ := hanswer
    exact (h.removed failure).imp id fun h' => ⟨h'.1, h'.2.le, fun _ => h'.2⟩
  · right
    obtain ⟨rest, hawaiting⟩ := h.awaiting
    have haside : Aside s (e.apply s) := by
      rcases hcalm.cases with ⟨groupAlive, rfl⟩ | h' | ⟨result, rfl⟩ | haside
      · simp only [Event.apply, (waits_iff.mp h.waits).2]
        exact ⟨rfl, rfl, rfl⟩
      · exact absurd h' hanswer
      · simp only [Event.apply, h.waits, if_true, hawaiting]
        exact ⟨rfl, rfl, rfl⟩
      · exact haside
    refine ⟨h.of_aside haside, ?_, fun h' => absurd h' hanswer⟩
    rw [pathsLeft, pathsLeft, haside.awaiting]

/-- A run forgets nothing that it did. -/
theorem Run.acts_subset (run : Run (lifecycle τ ε)) {t u : Nat} (htu : t ≤ u) {a : Act τ ε}
    (h : a ∈ (run.state t).acts) : a ∈ (run.state u).acts := by
  refine run.stable (P := fun s => a ∈ s.acts) ?_ htu h
  intro v hv
  exact ((Run.good run v).adds (run.event v)).acts_subset hv

end Undisturbed

/-! ## The lifecycle -/

/-- A run whose removals succeed and whose body returns 7. -/
def quietRun : Run (lifecycle Nat String) where
  first := ⟨true, ⟨[], [], true, false, false, false⟩, [],
    registrations.map (fun entry => .on entry.1 entry.2) ++ [.clear .first], .start, [], []⟩
  first_start := ⟨rfl, rfl, rfl, rfl, rfl, rfl⟩
  event t :=
    match t % 3 with
    | 0 => .step fun _ => false
    | 1 => .removed none
    | _ => .bodyEnds (.ok 7)

set_option maxRecDepth 2000 in
example : (quietRun.state 88).awaiting = .settled (.ok 7) := rfl

end RunLifecycle
end ZkPoR
