import ZkPoR.CustomerCheck
import ZkPoR.WatchdogCrash

/-! # Recovery after a killed run

Runs of one input follow each other on one directory, and each is killed at some
point, or ends.  Two things in `createState` leave a file that no later run reads: a run that
is killed between `open` and `write`, and a write that fails before the record is whole.
After a run whose earlier runs had neither, every state file is absent or complete exactly
when this run has neither (`recoverable_iff`).
-/
namespace ZkPoR.WatchdogFiles
open CheckedInt BoundedLoop JsonText JavaScript Binary64 HexText Interruption
open Watchdog (StateStatus disputeTargetMaxAgeLedgers watchdogDeliveryGraceLedgers)

/-- What `readState` makes of a file. -/
def File.state (file : File) (expected : StateRecord) : Except StateError StateRecord :=
  if file.isFile ∧ isPrivate file.mode then parseState file.text expected else .error .notPrivate

section
variable (lib : Library) (input : Input)

/-- Every state file holds one complete record, and `readState` takes it for the same
input.  The line end behind the record may be missing. -/
def Recoverable (s : Store) : Prop :=
  ∀ targetId file, s.files (stateName targetId) = some file →
    ∃ grace old record found, checkInput lib input = .ok (grace, old) ∧
      Complete (recordOf input.network old grace targetId .delivered none none) record ∧
      HoldsRecord lib.otherNumber record file.text ∧
      file.state (recordOf input.network old grace targetId .delivered none none) = .ok found ∧
      found.status = record.status ∧ found.transactionHash = record.transactionHash

/-- The run created a state file and has not written it. -/
def InCreate {α : Type} (p : Program α) : Prop := ∃ targetId, Writes p.nextOp targetId

/-- The directory after any number of runs, none of which was killed with an empty state
file, or tore one. -/
inductive Left : Store → Prop
  | fresh {s : Store} (h : ∀ targetId, s.files (stateName targetId) = none) : Left s
  | run {s : Store} {c : Prog.Config fileSystem Outcome} (h : Left s)
      (hrun : Prog.Reaches (runWatchdog lib input) s c) (hpoint : ¬ InCreate c.rest)
      (hlog : Intact c.log) : Left c.store

end

variable {lib : Library} {input : Input}

/-! ## The checks of the input -/

section Checks
variable {α β : Type}

theorem NoState.bind {x : Except Thrown α} {f : α → Except Thrown β} (h : NoState x)
    (hf : ∀ a, NoState (f a)) : NoState (x >>= f) := by
  cases x with
  | ok a => exact hf a
  | error e => exact noState_error (h e rfl)

theorem noState_mapError {ε : Type} (x : Except ε α) {g : ε → Thrown}
    (hg : ∀ e error, g e ≠ .state error) : NoState (x.mapError g) := by
  cases x with
  | ok a => exact noState_ok a
  | error e => exact noState_error (hg e)

theorem noState_require {p : Prop} [Decidable p] {e : Thrown} (h : ∀ error, e ≠ .state error) :
    NoState (require p e) := by
  unfold require
  split
  · exact noState_ok ()
  · exact noState_error h

theorem require_eq_ok {p : Prop} [Decidable p] {e : Thrown} {u : Unit} :
    require p e = .ok u ↔ p := by
  unfold require
  split <;> simp_all

/-- The grace that is taken, or the refusal of every other value. -/
theorem graceOf_cases (value : Option Double) :
    (∃ grace, graceOf value = .ok grace ∧ grace < disputeTargetMaxAgeLedgers) ∨
      ∃ message, graceOf value = .error (.range message) := by
  unfold graceOf
  cases value with
  | none => exact .inl ⟨_, rfl, by decide⟩
  | some value =>
    dsimp only
    cases hvalue : value.toInt? with
    | none => exact .inr ⟨_, rfl⟩
    | some grace =>
      by_cases hrange : grace < 1 ∨ disputeTargetMaxAgeLedgers ≤ grace
      · exact .inr ⟨_, if_pos hrange⟩
      · exact .inl ⟨grace.toNat, if_neg hrange, by omega⟩

theorem noState_graceOf (value : Option Double) : NoState (graceOf value) := by
  rcases graceOf_cases value with ⟨grace, h, -⟩ | ⟨message, h⟩
  · rw [h]
    exact noState_ok _
  · rw [h]
    exact noState_error fun _ => nofun

theorem graceOf_lt {value : Option Double} {grace : Nat} (h : graceOf value = .ok grace) :
    grace < disputeTargetMaxAgeLedgers := by
  rcases graceOf_cases value with ⟨grace', h', hlt⟩ | ⟨message, h'⟩
  · obtain rfl := Except.ok.inj (h'.symm.trans h)
    exact hlt
  · cases h'.symm.trans h

theorem noState_checkInput (lib : Library) (input : Input) : NoState (checkInput lib input) := by
  refine (noState_graceOf _).bind fun grace => ?_
  refine (noState_mapError _ (by nofun)).bind fun old => ?_
  refine NoState.bind ?_ fun _ => ?_
  · refine (noState_require (by nofun)).bind fun _ => ?_
    exact (noState_mapError _ (by nofun)).bind fun _ => noState_require (by nofun)
  · refine (noState_mapError _ (by nofun)).bind fun ownership => ?_
    exact (noState_require (by nofun)).bind fun _ => noState_ok _

/-- What every state record of a checked input is made of. -/
theorem plain_of_checkInput {grace : Nat} {old : Sdk.InclusionPackage}
    (h : checkInput lib input = .ok (grace, old)) (targetId : Nat) :
    Plain (recordOf input.network old grace targetId .delivered none none) := by
  simp only [checkInput, bind_eq_ok] at h
  obtain ⟨grace', hgrace, old', hold, _, htrusted, _, -, _, -, hout⟩ := h
  cases hout
  simp only [requireTrusted, bind_eq_ok, require_eq_ok] at htrusted
  obtain ⟨_, hnetwork, -⟩ := htrusted
  obtain ⟨source, hparse, hpackage⟩ := Sdk.parsePackage_eq_ok.mp (Schema.mapError_eq_ok.mp hold)
  have hbound := graceOf_lt hgrace
  exact {
    network := hnetwork ▸ normal_of_property hparse hpackage.network
    registry := normal_of_property hparse hpackage.registry
    asset := normal_of_property hparse hpackage.asset
    grace := hbound.trans (by decide)
    noHash := rfl
    noExpiry := rfl }

end Checks

/-! ## Every point of a run -/

section Points
variable {grace : Nat} {old : Sdk.InclusionPackage}

/-- The record that a checked input expects of a target. -/
def expectedOf (input : Input) (grace : Nat) (old : Sdk.InclusionPackage) (targetId : Nat) :
    StateRecord :=
  recordOf input.network old grace targetId .delivered none none

theorem quiet_mkdir : Quiet .mkdir where
  not_write := nofun
  files s answer s' h := by
    cases answer with
    | ok _ => rw [show s' = _ from h]
    | error e => rw [h.1]
  noState s answer s' h := by
    cases answer with
    | ok _ => exact noState_ok _
    | error e =>
      obtain ⟨-, rfl⟩ := h
      exact noState_error fun _ => nofun

theorem quiet_stat : Quiet .stat where
  not_write := nofun
  files := by
    rintro s answer s' ⟨rfl, -⟩
    rfl
  noState := by
    rintro s answer s' ⟨-, h⟩ e rfl error
    rcases h with ⟨rfl, -⟩ | rfl <;> exact nofun

theorem ensures_stateDirectory {otherNumber : Double → String} {expected : Nat → StateRecord} :
    Ensures otherNumber expected stateDirectory fun _ => True := by
  refine (ensures_perform quiet_mkdir).bind fun _ _ => ?_
  refine (ensures_perform quiet_stat).bind fun mode _ => ?_
  split
  · exact ensures_pure trivial
  · exact ensures_infrastructure

theorem ensures_readTotalCount {otherNumber : Double → String} {expected : Nat → StateRecord} :
    Ensures otherNumber expected readTotalCount fun _ => True := ensures_ask _

theorem ensures_latestLedger {otherNumber : Double → String} {expected : Nat → StateRecord} :
    Ensures otherNumber expected latestLedger fun _ => True := ensures_ask _

/-- **A run keeps the directory**, whatever is answered. -/
theorem ensures_runWatchdog (hcheck : checkInput lib input = .ok (grace, old)) :
    Ensures lib.otherNumber (expectedOf input grace old) (runWatchdog lib input)
      fun _ => True := by
  have hrun : runWatchdog lib input = runChecked lib input grace old := by
    rw [runWatchdog, hcheck]
    rfl
  rw [hrun]
  refine Ensures.bind (P := fun _ => True) ?_ fun _ _ => ?_
  · refine (ensures_ask _).bind fun verdict _ => ?_
    split
    · exact ensures_pure trivial
    · exact ensures_infrastructure
  split
  · exact ensures_throw fun _ => nofun
  refine ensures_stateDirectory.bind fun _ _ => ?_
  refine ensures_readTotalCount.bind fun totalCount _ => ?_
  split
  · exact ensures_pure trivial
  refine ensures_latestLedger.bind fun currentLedger _ => ?_
  exact ensures_runTargets ⟨lib, input, old, grace, currentLedger⟩ (plain_of_checkInput hcheck) _ _ _

/-- A run whose input does not pass its checks stops at once. -/
theorem runWatchdog_of_error {e : Thrown} (hcheck : checkInput lib input = .error e) :
    runWatchdog lib input = Prog.done (.error e) := by
  rw [runWatchdog, hcheck]
  rfl

/-- What earlier runs leave, by induction on them. -/
theorem stands_of_left {s : Store} (hcheck : checkInput lib input = .ok (grace, old))
    (h : Left lib input s) : Stands lib.otherNumber (expectedOf input grace old) none s := by
  induction h with
  | fresh h =>
    rw [stands_none]
    intro targetId file hfile
    rw [h targetId] at hfile
    cases hfile
  | @run s c h hrun hpoint hlog ih =>
    have hkeeps := (ensures_runWatchdog hcheck [] s (List.forall_mem_nil _) ih).of_reaches hrun
    exact (stands_of_not_writes (not_exists.mp hpoint)).mp (hkeeps.here.stands hlog)

theorem files_of_left {s : Store} {e : Thrown} (hcheck : checkInput lib input = .error e)
    (h : Left lib input s) (targetId : Nat) : s.files (stateName targetId) = none := by
  induction h with
  | fresh h => exact h targetId
  | run h hrun hpoint hlog ih =>
    rw [runWatchdog_of_error hcheck] at hrun
    rw [hrun.eq_of_done]
    exact ih

theorem recoverable_of_stands {s : Store} (hcheck : checkInput lib input = .ok (grace, old))
    (hs : Stands lib.otherNumber (expectedOf input grace old) none s) :
    Recoverable lib input s := by
  intro targetId file hfile
  obtain ⟨record, text, hrecord, htext, rfl⟩ := stands_none.mp hs targetId file hfile
  obtain ⟨found, hfound, hstatus, hhash, -⟩ :=
    parseState_record (plain_of_checkInput hcheck targetId) hrecord htext
  refine ⟨grace, old, record, found, hcheck, hrecord, htext, ?_, hstatus, hhash⟩
  rw [File.state, created, if_pos ⟨rfl, isPrivate_secretFileMode⟩, hfound]

/-- A state file that no run reads cannot be recovered from. -/
theorem not_recoverable_of_torn {s : Store} (h : Torn s) : ¬ Recoverable lib input s := by
  intro hrecoverable
  obtain ⟨targetId, text, hfile, hparse⟩ := h
  obtain ⟨grace, old, record, found, -, -, -, hfound, -⟩ := hrecoverable targetId _ hfile
  rw [File.state, created, if_pos ⟨rfl, isPrivate_secretFileMode⟩, hparse] at hfound
  cases hfound

/-- An empty state file is one of them. -/
theorem torn_of_empty {s : Store} {targetId : Nat}
    (h : s.files (stateName targetId) = some (created "")) : Torn s :=
  ⟨targetId, "", h, parseState_empty⟩

/-- **Recovery.**  Where no earlier run was killed between the `open` and the `write` of
`createState`, or failed to write a record there, every state file is absent or complete
exactly when this run is not there, and did not fail there.  No run then throws what
`readState` throws of a file. -/
theorem recoverable_iff {s : Store} {c : Prog.Config fileSystem Outcome} (h : Left lib input s)
    (hrun : Prog.Reaches (runWatchdog lib input) s c) :
    (Recoverable lib input c.store ↔ ¬ InCreate c.rest ∧ Intact c.log) ∧
      ∀ error, c.rest ≠ Prog.done (.error (.state error)) := by
  cases hcheck : checkInput lib input with
  | error e =>
    have hfiles := files_of_left hcheck h
    rw [runWatchdog_of_error hcheck] at hrun
    obtain rfl := hrun.eq_of_done
    refine ⟨iff_of_true ?_ ⟨?_, List.forall_mem_nil _⟩, ?_⟩
    · intro targetId file hfile
      rw [hfiles targetId] at hfile
      cases hfile
    · rintro ⟨targetId, text, htext⟩
      cases htext
    · intro error heq
      simp only [Prog.done.injEq, Except.error.injEq] at heq
      exact noState_checkInput lib input e hcheck error heq
  | ok checked =>
    obtain ⟨grace, old⟩ := checked
    have hstands := stands_of_left hcheck h
    have hkeeps := (ensures_runWatchdog hcheck [] s (List.forall_mem_nil _) hstands).of_reaches hrun
    refine ⟨⟨?_, ?_⟩, ?_⟩
    · intro hrecoverable
      rcases hkeeps.here with ⟨hlog, hpoint⟩ | ⟨-, htorn⟩
      · refine ⟨?_, hlog⟩
        rintro ⟨targetId, hwrites⟩
        -- the file that is about to be written is empty
        exact not_recoverable_of_torn (torn_of_empty ((hpoint targetId).1 hwrites)) hrecoverable
      · exact absurd hrecoverable (not_recoverable_of_torn htorn)
    · rintro ⟨hpoint, hlog⟩
      exact recoverable_of_stands hcheck
        ((stands_of_not_writes (not_exists.mp hpoint)).mp (hkeeps.here.stands hlog))
    · intro error heq
      rw [heq] at hkeeps
      exact hkeeps.2.1 _ rfl error rfl

end Points

/-! ## A run that is killed in `createState` -/

section Sample

def sampleLibrary : Library where
  primitives := sampleSdkPrimitives
  poseidon2 := Poseidon2.hash
  otherNumber _ := "null"

/-- A watchdog with the sample package, and with the default grace. -/
def sampleInput : Input where
  network := Text.ofString "testnet"
  deploymentsText := sampleText sampleDeployments
  oldPackageText := samplePackageText
  identityText := sampleText sampleIdentity
  deliveryGraceLedgers := none

def sampleOld : Sdk.InclusionPackage := Schema.sdkPackage samplePackage

theorem checkInput_sample :
    checkInput sampleLibrary sampleInput = .ok (watchdogDeliveryGraceLedgers, sampleOld) := by
  have hparse : (Sdk.parsePackage Poseidon2.hash samplePackageText).mapError Thrown.package =
      .ok sampleOld := Schema.mapError_eq_ok.mpr sdkAccepts_sample.reads
  have hfind : (Sdk.findGeneration (sampleText sampleDeployments) sampleOld.network
      sampleOld.registry).mapError Thrown.deployments = .ok (some sampleGeneration) :=
    Schema.mapError_eq_ok.mpr sdkAccepts_sample.finds
  have hown : (Sdk.checkOwnIdentifier sampleSdkPrimitives sampleOld
      (sampleText sampleIdentity)).mapError Thrown.identity = .ok .own :=
    Schema.mapError_eq_ok.mpr (Sdk.checkOwnIdentifier_eq_own.mpr sdkOwns_sample)
  simp only [checkInput, requireTrusted, bind_eq_ok]
  refine ⟨_, rfl, sampleOld, hparse, (), ⟨(), ?_, _, hfind, ?_⟩, .own, hown, (), ?_, rfl⟩
  · exact require_eq_ok.mpr rfl
  · exact require_eq_ok.mpr rfl
  · exact require_eq_ok.mpr rfl

/-- The verdict on the sample package. -/
def sampleVerdict : Sdk.Verdict :=
  .included
    { asset := sampleOld.asset, registry := sampleOld.registry, id := sampleOld.id, leafIndex := 1,
      balance := 250, snapshotLedger := 100, attestedLedger := 101, totalLiabilities := 500,
      reserveSum := 600, currentLedger := 200, solvencyLapsed := false, identityConfirmed := true }

/-- One operation, with what it answers and leaves. -/
theorem canReach_step (o : Op) (answer : Except Thrown (Answer o)) (s' : Store) {s : Store}
    {log : List Event} {next : Except Thrown (Answer o) → Program Outcome}
    {P : Prog.Config fileSystem Outcome → Prop} (hdoes : does o s answer s')
    (h : Prog.CanReach (next answer) s' (⟨o, answer, s'⟩ :: log) P) :
    Prog.CanReach (Prog.op (I := fileSystem) o next) s log P :=
  Prog.CanReach.op hdoes h

theorem runWatchdog_sample : runWatchdog sampleLibrary sampleInput =
    runChecked sampleLibrary sampleInput watchdogDeliveryGraceLedgers sampleOld := by
  rw [runWatchdog, checkInput_sample]
  rfl

/-- The loop of the sample: one target, which is the fourth attestation. -/
def sampleTargets : Program Outcome :=
  runTargets ⟨sampleLibrary, sampleInput, sampleOld, watchdogDeliveryGraceLedgers, 1000000⟩ 1 4
    ⟨none, none⟩

/-- A run of the sample comes to its loop. -/
theorem canReach_sampleTargets {s : Store} {P : Prog.Config fileSystem Outcome → Prop}
    (hs : s.directory.or (some PRIVATE_DIRECTORY_MODE) = some PRIVATE_DIRECTORY_MODE)
    (h : ∀ log, Prog.CanReach sampleTargets { s with directory := some PRIVATE_DIRECTORY_MODE }
      log P) :
    Prog.CanReach (runWatchdog sampleLibrary sampleInput) s [] P := by
  rw [runWatchdog_sample]
  refine canReach_step (.ask (.verifyInclusion _)) (.ok sampleVerdict) s ⟨rfl, nofun⟩ ?_
  set made : Store := { s with directory := some PRIVATE_DIRECTORY_MODE }
  refine canReach_step .mkdir (.ok ()) made ?_ ?_
  · exact congrArg (fun directory => { s with directory }) hs.symm
  refine canReach_step .stat (.ok PRIVATE_DIRECTORY_MODE) made ⟨rfl, rfl⟩ ?_
  refine canReach_step (.ask .totalCount) (.ok (4 : Nat)) made ⟨rfl, nofun⟩ ?_
  exact canReach_step (.ask .latestLedger) (.ok (1000000 : Nat)) made ⟨rfl, nofun⟩ (h _)

def sampleStore : Store := ⟨some PRIVATE_DIRECTORY_MODE, fun _ => none⟩

/-- The state directory after the run was killed. -/
def killedStore : Store := sampleStore.put (stateName 4) (some (created ""))

/-- The target expired, and the run created the file for its record. -/
theorem canReach_create_sample {log : List Event} {P : Prog.Config fileSystem Outcome → Prop}
    (h : ∀ p log, InCreate p → P ⟨p, killedStore, log⟩) :
    Prog.CanReach sampleTargets sampleStore log P := by
  refine canReach_step (.lstat (stateName 4)) (.error (.io .ENOENT)) sampleStore
    ⟨rfl, .inl ⟨rfl, rfl⟩⟩ ?_
  refine canReach_step (.ask (.storedAttestation 4)) (.ok (some sampleStored)) sampleStore
    ⟨rfl, nofun⟩ ?_
  refine canReach_step (.ask (.readPackage 4)) (.error (.io .ENOENT)) sampleStore ⟨rfl, ?_⟩ ?_
  · rintro _ ⟨rfl⟩
    exact .inr ⟨_, rfl⟩
  refine canReach_step (.create (stateName 4)) (.ok ()) killedStore ⟨rfl, rfl⟩ ?_
  exact Prog.CanReach.here (h _ _ ⟨4, _, rfl⟩)

/-- A later run finds the file empty, and throws. -/
theorem canReach_notJson_sample {log : List Event} :
    Prog.CanReach sampleTargets killedStore log fun c =>
      c.rest = Prog.done (.error (.state .notJson)) ∧ c.store = killedStore := by
  have hfile : killedStore.files (stateName 4) = some (created "") := Store.files_put_same _ _ _
  refine canReach_step (.lstat (stateName 4)) (.ok (true, SECRET_FILE_MODE)) killedStore
    ⟨rfl, _, hfile, rfl⟩ ?_
  refine canReach_step (.readFile (stateName 4)) (.ok "") killedStore ⟨rfl, _, hfile, rfl⟩ ?_
  exact Prog.CanReach.here ⟨rfl, rfl⟩

/-- **A run that is killed in `createState`** leaves an empty state file.  No run takes
it, and a later run of the same input throws and leaves it as it is. -/
theorem killed_in_create_sample :
    Prog.CanReach (runWatchdog sampleLibrary sampleInput) ⟨none, fun _ => none⟩ [] fun c =>
      ¬ Recoverable sampleLibrary sampleInput c.store ∧
        Prog.CanReach (runWatchdog sampleLibrary sampleInput) c.store [] fun c' =>
          c'.rest = Prog.done (.error (.state .notJson)) ∧ c'.store = c.store := by
  refine canReach_sampleTargets rfl fun log => canReach_create_sample ?_
  intro p log hp
  refine ⟨?_, canReach_sampleTargets rfl fun _ => canReach_notJson_sample⟩
  have hfile : killedStore.files (stateName 4) = some (created "") := Store.files_put_same _ _ _
  exact not_recoverable_of_torn (torn_of_empty hfile)

/-- The run that is killed there is not recoverable, and only because it is there. -/
theorem recoverable_iff_sample :
    Prog.CanReach (runWatchdog sampleLibrary sampleInput) ⟨none, fun _ => none⟩ [] fun c =>
      (Recoverable sampleLibrary sampleInput c.store ↔ ¬ InCreate c.rest ∧ Intact c.log) ∧
        ∀ error, c.rest ≠ Prog.done (.error (.state error)) := by
  obtain ⟨c, hrun, -⟩ := canReach_sampleTargets (s := ⟨none, fun _ => none⟩) (P := fun _ => True)
    rfl fun _ => canReach_create_sample fun _ _ _ => trivial
  exact ⟨c, hrun, recoverable_iff (.fresh fun _ => rfl) hrun⟩

end Sample

end ZkPoR.WatchdogFiles
